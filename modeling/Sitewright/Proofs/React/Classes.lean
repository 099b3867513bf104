import Sitewright.Proofs.Mapping.Resolution
import Sitewright.Proofs.Markup.Attributes
import Sitewright.Proofs.React.ModuleImports
import Sitewright.Proofs.Style.ClassNames

/-!
# Classes in React markup

Extraction writes the classes of an element under `class`, which becomes `className` in the markup.
An attribute or an event that is called `className` itself is written there later, and a class that
is not static is replaced when a class is added to it. In these cases classes are lost, and in no
others.
-/

namespace Sitewright

namespace React

open Style

variable {mapping : Mapping} {e : Ui.Element} {s : ClassStyle} {key : String}

/-! ## The markup of a tree -/

mutual
theorem tags_markup (mapping : Mapping) : ∀ node : Ui.Node, (markup mapping node).tags =
    node.elements.map fun e => (e.kind, attributes mapping e)
  | .element _ children => congrArg (_ :: ·) (tagsOfAll_markupAll mapping children)
  | .text _ => rfl
  | .dynamic _ => rfl

theorem tagsOfAll_markupAll (mapping : Mapping) : ∀ nodes : List Ui.Node,
    Markup.tagsOfAll (markupAll mapping nodes) =
      (Ui.Node.elementsOfAll nodes).map fun e => (e.kind, attributes mapping e)
  | [] => rfl
  | node :: rest => by
    rw [markupAll, Markup.tagsOfAll, Ui.Node.elementsOfAll, List.map_append,
      tags_markup mapping node, tagsOfAll_markupAll mapping rest]
end

theorem attributeName_eq_className_iff (name : String) :
    Mapping.react.attributeName name = "className" ↔ name = "class" ∨ name = "className" := by
  have hentries : Mapping.react.attributes.entries =
    [("class", "className"), ("for", "htmlFor")] := rfl
  rw [Mapping.attributeName, Table.get?, hentries]
  by_cases hclass : name = "class"
  · subst hclass
    decide
  · by_cases hfor : name = "for"
    · subst hfor
      decide
    · simp [List.lookup_cons, hclass, beq_eq_false_iff_ne.2 hclass, beq_eq_false_iff_ne.2 hfor]

/-- What stands under `className`: the handler of an event of this name, else the attribute of this
name, else the class. -/
theorem lookup_className (e : Ui.Element) : (attributes .react e).lookup "className" =
    ((e.events.get? "className").map .dynamic).or
      (((e.attrs.get? "className").or (e.attrs.get? "class")).map attributeOf) := by
  have hown := e.attrs.lookup_renamed_map attributeOf (by decide) attributeName_eq_className_iff
  have hevents : (e.events.entries.map fun x =>
      (Mapping.react.eventName x.1, Markup.Attr.dynamic x.2)).reverse.lookup "className" =
        (e.events.get? "className").map .dynamic := Mapping.lookup_events _ (by decide) (by decide)
  rw [attributes, Markup.lookup_foldl_setAttr (fun value => value), List.reverse_append,
    List.lookup_append, List.lookup_nil, Option.or_none, Option.map_id']
  exact congrArg₂ Option.or hevents hown

/-! ## Styled elements -/

def ShowsClass (value : Markup.Attr) (name : String) : Prop :=
  ∃ text, value = .literal text ∧ ListsClass text name

/-- A value of the author has its part in a value of the markup: its classes are listed there, or its
reference is what stands there. -/
def Contributes (value : Markup.Attr) : Ui.Value → Prop
  | .literal classes => ∃ text, value = .literal text ∧
      ∀ name, ListsClass classes name → ListsClass text name
  | .dynamic r => value = .dynamic r.expression

/-- The classes of an element are all there: the one made for it, and the author's own. -/
def KeepsClasses (e : Ui.Element) (name : String) (attrs : List (String × Markup.Attr)) : Prop :=
  ∃ value, attrs.lookup "className" = some value ∧ ShowsClass value name ∧
    (∀ own, e.attrs.get? "class" = some own → Contributes value own) ∧
    ∀ own, e.attrs.get? "className" = some own → Contributes value own

/-- A value under `className` that makes up for the class and the made name, which it replaces. -/
def Covers (e : Ui.Element) (name : String) (own : Ui.Value) : Prop :=
  ∃ text, own = .literal text ∧ ListsClass text name ∧
    ∀ classes, e.attrs.get? "class" = some (.literal classes) →
      ∀ other, ListsClass classes other → ListsClass text other

theorem get?_resolved_class (e : Ui.Element) (hkey : key ∈ ["class", "className"]) :
    (Mapping.react.resolveElement e).attrs.get? key = e.attrs.get? key := by
  refine Mapping.get?_resolveElement fun mapped hmapped => ?_
  have hfree : ∀ mapped ∈ Mapping.react.elements.values, ∀ key ∈ ["class", "className"],
      mapped.attrs.get? key = none ∧
        key ∉ mapped.attrs.values.filterMap Ui.Value.boundAttr? := by decide
  exact hfree mapped hmapped key hkey

theorem lookup_styled (e : Ui.Element) (name : String) :
    (attributes .react (withClass (Mapping.react.resolveElement e) name)).lookup "className" =
      some ((((e.events.get? "className").map .dynamic).or
        ((e.attrs.get? "className").map attributeOf)).getD
          (.literal (classesWith (e.attrs.get? "class") name))) := by
  have hevents : (withClass (Mapping.react.resolveElement e) name).events = e.events :=
    (Mapping.react.resolveElement_keeps e).2.1
  rw [lookup_className, hevents, get?_withClass, if_neg (by decide), get?_withClass, if_pos rfl,
    get?_resolved_class e (by simp), get?_resolved_class e (by simp)]
  cases e.events.get? "className" with
  | some handler => rfl
  | none =>
    cases e.attrs.get? "className" with
    | some own => rfl
    | none => rfl

/-- The classes of a styled element are all there exactly if nothing is written over them: no event
is called `className`, the class is static, and an attribute `className` lists them, too. -/
theorem keepsClasses_iff (e : Ui.Element) (hname : IsClassName key) :
    KeepsClasses e key (attributes .react (withClass (Mapping.react.resolveElement e) key)) ↔
      e.events.get? "className" = none ∧ (∀ r, e.attrs.get? "class" ≠ some (.dynamic r)) ∧
        ∀ own, e.attrs.get? "className" = some own → Covers e key own := by
  rw [KeepsClasses, lookup_styled]
  constructor
  · rintro ⟨value, hvalue, ⟨text, rfl, hlists⟩, hclass, hown⟩
    -- a class is listed by a literal only, so neither a handler nor a reference stands there
    replace hvalue := Option.some.inj hvalue
    have hevent : e.events.get? "className" = none := by
      cases hevent : e.events.get? "className" with
      | none => rfl
      | some handler =>
        rw [hevent] at hvalue
        cases hvalue
    refine ⟨hevent, fun r hr => ?_, fun own hmine => ?_⟩
    · cases (hclass _ hr : Markup.Attr.literal text = .dynamic r.expression)
    · rw [hevent, hmine] at hvalue
      cases own with
      | dynamic r => cases hvalue
      | literal mine =>
        obtain rfl : mine = text := Markup.Attr.literal.inj hvalue
        refine ⟨mine, rfl, hlists, fun classes hclasses other hother => ?_⟩
        obtain ⟨text, htext, hall⟩ := hclass _ hclasses
        obtain rfl := Markup.Attr.literal.inj htext
        exact hall other hother
  · rintro ⟨hevent, hstatic, hcovers⟩
    rw [hevent]
    cases hmine : e.attrs.get? "className" with
    | none =>
      refine ⟨_, rfl, ⟨_, rfl, listsClass_classesWith hname _⟩, fun own hown => ?_, nofun⟩
      cases own with
      | dynamic r => exact absurd hown (hstatic r)
      | literal classes =>
        rw [hown]
        exact ⟨_, rfl, fun other hother => hother.classesWith key⟩
    | some own =>
      obtain ⟨text, rfl, hlists, hall⟩ := hcovers own hmine
      refine ⟨_, rfl, ⟨text, rfl, hlists⟩, fun own hown => ?_, fun own hown => ?_⟩
      · cases own with
        | dynamic r => exact absurd hown (hstatic r)
        | literal classes => exact ⟨text, rfl, hall classes hown⟩
      · obtain rfl := Option.some.inj hown
        exact ⟨text, rfl, fun _ hother => hother⟩

/-- Elements with their tags, and with the next style for each that has one. A tag, its element and
the style are in the relation `R`. -/
inductive Dressed (R : Ui.Element → List (String × Markup.Attr) → ClassStyle → Prop) :
    List Ui.Element → List (String × List (String × Markup.Attr)) → List ClassStyle → Prop
  | nil : Dressed R [] [] []
  | plain {e : Ui.Element} {tag : String × List (String × Markup.Attr)}
      {elements : List Ui.Element} {tags : List (String × List (String × Markup.Attr))}
      {styles : List ClassStyle} (hplain : e.style.isEmpty = true)
      (rest : Dressed R elements tags styles) : Dressed R (e :: elements) (tag :: tags) styles
  | styled {e : Ui.Element} {tag : String × List (String × Markup.Attr)} {s : ClassStyle}
      {elements : List Ui.Element} {tags : List (String × List (String × Markup.Attr))}
      {styles : List ClassStyle} (hstyled : e.style.isEmpty = false) (hstyle : s.style = e.style)
      (hR : R e tag.2 s) (rest : Dressed R elements tags styles) :
      Dressed R (e :: elements) (tag :: tags) (s :: styles)

theorem dressed_of_classed {R : Ui.Element → List (String × Markup.Attr) → ClassStyle → Prop}
    {elements after : List Ui.Element} {styles : List ClassStyle}
    (h : Classed (elements.map Mapping.react.resolveElement) after styles)
    (hR : ∀ s ∈ styles, ∀ e, R e
      (attributes .react (withClass (Mapping.react.resolveElement e) s.className)) s) :
    Dressed R elements (after.map fun e => (e.kind, attributes .react e)) styles := by
  generalize hbefore : elements.map Mapping.react.resolveElement = before at h
  induction h generalizing elements with
  | nil =>
    obtain rfl := List.map_eq_nil_iff.1 hbefore
    exact .nil
  | plain hplain _ ih =>
    obtain ⟨e, elements, rfl, rfl, rfl⟩ := List.map_eq_cons_iff.1 hbefore
    rw [(Mapping.react.resolveElement_keeps e).2.2] at hplain
    exact .plain hplain (ih hR rfl)
  | @styled _ s _ _ styles hstyled hstyle _ ih =>
    obtain ⟨e, elements, rfl, rfl, rfl⟩ := List.map_eq_cons_iff.1 hbefore
    rw [(Mapping.react.resolveElement_keeps e).2.2] at hstyled hstyle
    obtain ⟨hfirst, hrest⟩ := List.forall_mem_cons.1 hR
    exact .styled hstyled hstyle (hfirst e) (ih hrest rfl)

theorem eq_toChild_of_element? {child : Markup.Child} {root : Markup.Element}
    (h : child.element? = some root) : child = root.toChild := by
  cases child with
  | element tag attrs children =>
    obtain rfl := Option.some.inj h
    rfl
  | text s => cases h
  | raw markup => cases h
  | expression s => cases h

variable {c : Component} {options : Options} {compiled : Compiled}

/-- The markup of a component has a tag for each element, and its style sheet a rule for each styled
one. The class of this rule and the author's classes are all in the tag exactly if no event is called
`className`, the element's `class` is static, and its `className`, if it has one, lists the others. -/
theorem classes_kept_iff (hmapping : Generator.reactComponent.mappingFor options = .react)
    (h : Generator.reactComponent.generate c options = .ok compiled) :
    ∃ declared styles root,
      (∀ file, file ∈ compiled.files ↔ file = File.ofParts c.fileName "js"
          (normalizeText (moduleText declared (moduleBody c root))) ∨
        (styles ≠ [] ∧ file = File.ofParts c.fileName "css"
          (normalizeText (sheetText (styles.map ClassStyle.rule))))) ∧
      Dressed (fun e attrs s => KeepsClasses e s.className attrs ↔
          e.events.get? "className" = none ∧ (∀ r, e.attrs.get? "class" ≠ some (.dynamic r)) ∧
            ∀ own, e.attrs.get? "className" = some own → Covers e s.className own)
        c.node.elements root.toChild.tags styles := by
  obtain ⟨draft, imports, text, styles, body, -, -, hmade, hmodule, hfiles⟩ :=
    generate_module_ok rfl (by decide) Generator.plugins_reactComponent
      (fun _ => runPlugins_component_ok) h
  obtain ⟨declared, -, rfl⟩ := hmodule
  obtain ⟨rfl, root, hroot, rfl⟩ := hmade
  rw [hmapping] at hroot hfiles
  refine ⟨_, _, root, hfiles, ?_⟩
  rw [← eq_toChild_of_element? hroot, tags_markup]
  have hclassed := classed_extract [] (Mapping.react.resolveTree c.node)
  rw [Mapping.resolveTree, Ui.Node.elements_mapElements] at hclassed
  exact dressed_of_classed hclassed fun s hs e => keepsClasses_iff e (isClassName_extract hs)

def bannerBlock : Ui.Element where
  kind := "container"
  attrs := Table.ofList [("class", .literal "wide")]
  style := Table.ofList [("color", "red")]

def banner : Component where
  name := "Banner"
  node := .element bannerBlock [.text "Welcome"]

theorem isClassName_wide : IsClassName "wide" := ⟨by decide, by simp [separates]⟩

theorem classes_kept_iff_banner :
    ∃ (compiled : Compiled) (declared : _) (root : Markup.Element) (style : ClassStyle),
      Generator.reactComponent.mappingFor {} = .react ∧
      Generator.reactComponent.generate banner {} = .ok compiled ∧
      (∀ file, file ∈ compiled.files ↔ file = File.ofParts "banner" "js"
          (normalizeText (moduleText declared (moduleBody banner root))) ∨
        file = File.ofParts "banner" "css" (normalizeText (sheetText [style.rule]))) ∧
      ∃ tag text, root.toChild.tags = [tag] ∧ tag.2.lookup "className" = some (.literal text) ∧
        ListsClass text style.className ∧ ListsClass text "wide" := by
  obtain ⟨compiled, hcompiled⟩ :
    ∃ compiled, Generator.reactComponent.generate banner {} = .ok compiled := ⟨_, rfl⟩
  obtain ⟨declared, styles, root, hfiles, hdressed⟩ := classes_kept_iff rfl hcompiled
  have helements : banner.node.elements = [bannerBlock] := rfl
  rw [helements] at hdressed
  generalize htags : root.toChild.tags = tags at hdressed
  cases hdressed with
  | plain hplain _ => cases hplain
  | @styled _ tag style _ _ _ _ _ hkept rest =>
    cases rest
    obtain ⟨value, hvalue, ⟨text, rfl, hmade⟩, hclass, -⟩ := hkept.2 ⟨rfl, nofun, nofun⟩
    obtain ⟨text', htext, hwide⟩ := hclass (.literal "wide") rfl
    obtain rfl := Markup.Attr.literal.inj htext
    refine ⟨compiled, declared, root, style, rfl, hcompiled, fun file => ?_, tag, text, htags,
      hvalue, hmade, hwide "wide" isClassName_wide.listsClass⟩
    rw [hfiles]
    exact or_congr Iff.rfl (and_iff_right (List.cons_ne_nil _ _))

def wideBlock : Ui.Element where
  kind := "container"
  attrs := Table.ofList [("className", .literal "wide")]
  style := Table.ofList [("color", "red")]

def themedText : Ui.Element where
  kind := "text"
  attrs := Table.ofList [("class", .dynamic ⟨.prop, "theme"⟩)]
  style := Table.ofList [("color", "blue")]

def lead : Component where
  name := "Lead"
  node := .element wideBlock [.element themedText [.text "Welcome"]]

def leadMarkup : Markup.Element where
  tag := "div"
  attrs := [("className", .literal "wide")]
  children := [.element "span" [("className", .literal "span")] [.text "Welcome"]]

/-- The made class of the one element is lost, and the author's class of the other. -/
theorem classes_lost : ∃ compiled declared,
    Generator.reactComponent.generate lead {} = .ok compiled ∧
    (∀ file, file ∈ compiled.files ↔ file = File.ofParts "lead" "js"
        (normalizeText (moduleText declared (moduleBody lead leadMarkup))) ∨
      file = File.ofParts "lead" "css" (normalizeText (sheetText
        [ruleOf ".div" wideBlock.style, ruleOf ".span" themedText.style]))) ∧
    ¬ KeepsClasses wideBlock "div" [("className", .literal "wide")] ∧
    ¬ KeepsClasses themedText "span" [("className", .literal "span")] := by
  obtain ⟨compiled, hcompiled⟩ :
    ∃ compiled, Generator.reactComponent.generate lead {} = .ok compiled := ⟨_, rfl⟩
  obtain ⟨draft, imports, text, styles, body, -, -, hmade, hmodule, hfiles⟩ :=
    generate_module_ok rfl (by decide) Generator.plugins_reactComponent
      (fun _ => runPlugins_component_ok) hcompiled
  obtain ⟨declared, -, rfl⟩ := hmodule
  obtain ⟨rfl, root, hroot, rfl⟩ := hmade
  have hstyles : (extractStyles ((Generator.reactComponent.mappingFor {}).resolveTree lead.node)).2 =
    [⟨"div", wideBlock.style⟩, ⟨"span", themedText.style⟩] := rfl
  have hmarkup : (markup (Generator.reactComponent.mappingFor {})
    (extractStyles ((Generator.reactComponent.mappingFor {}).resolveTree lead.node)).1).element? =
      some leadMarkup := rfl
  obtain rfl := Option.some.inj (hmarkup.symm.trans hroot)
  refine ⟨compiled, declared .library ++ declared .package ++ declared .localPath, hcompiled,
    fun file => ?_, ?_, ?_⟩
  · rw [hfiles, hstyles]
    exact or_congr Iff.rfl (and_iff_right (List.cons_ne_nil _ _))
  · rintro ⟨value, hvalue, ⟨text, rfl, -, before, after, htext, -⟩, -⟩
    obtain rfl := Markup.Attr.literal.inj (Option.some.inj hvalue)
    have hmem : 'v' ∈ "wide".toList := by
      rw [htext]
      simp
    exact absurd hmem (by decide)
  · rintro ⟨value, hvalue, -, hclass, -⟩
    obtain rfl := Option.some.inj hvalue
    cases hclass _ rfl

end React

end Sitewright
