import Mathlib.Data.List.Forall2
import Sitewright.Proofs.Style.ClassNames

/-!
# Extraction of styles

A tree is walked through with the parents before their children. Each element that has a style gets
the first free name that its base gives, and its style becomes the next rule. Since no name is given
twice, the rules are for different classes, whatever the elements are called.
-/

namespace Sitewright.Style

open Ui (Node Element)

/-- An element that has got a class, and is otherwise as it was. -/
structure GotClass (e : Element) (name : String) (after : Element) : Prop where
  fields : after = { e with attrs := after.attrs }
  attrs : ∀ key, key ≠ "class" → after.attrs.get? key = e.attrs.get? key
  /-- The class stands after the ones that the element has had. -/
  added : ∀ before, e.attrs.get? "class" = some (.literal before) → before ≠ "" →
    after.attrs.get? "class" = some (.literal (before ++ " " ++ name))
  /-- Without any, or with one that is not static, it stands alone. -/
  alone : (∀ before, e.attrs.get? "class" = some (.literal before) → before = "") →
    after.attrs.get? "class" = some (.literal name)

def styledAmong (elements : List Element) : List Element :=
  elements.filter fun e => !e.style.isEmpty

mutual
/-- A tree before and after extraction, with the names that are in use before and the styles. -/
inductive Extracted : List String → Node → Node → List ClassStyle → Prop
  | text (used : List String) (s : String) : Extracted used (.text s) (.text s) []
  | dynamic (used : List String) (r : Ui.Reference) : Extracted used (.dynamic r) (.dynamic r) []
  | plain {used : List String} {e : Element} {before after : List Node} {styles : List ClassStyle}
      (hplain : e.style.isEmpty = true) (below : AllExtracted used before after styles) :
      Extracted used (.element e before) (.element e after) styles
  | styled {used : List String} {e e' : Element} {n : Nat} {before after : List Node}
      {styles : List ClassStyle} (hstyled : e.style.isEmpty = false)
      (htries : n ≤ used.length) (hfirst : IsFirstFree (classBase e) used n)
      (hgot : GotClass e (candidate (classBase e) n) e')
      (below : AllExtracted (used ++ [candidate (classBase e) n]) before after styles) :
      Extracted used (.element e before) (.element e' after)
        (⟨candidate (classBase e) n, e.style⟩ :: styles)

inductive AllExtracted : List String → List Node → List Node → List ClassStyle → Prop
  | nil (used : List String) : AllExtracted used [] [] []
  | cons {used : List String} {before after : Node} {rest rest' : List Node}
      {first later : List ClassStyle} (hfirst : Extracted used before after first)
      (hlater : AllExtracted (used ++ first.map (·.className)) rest rest' later) :
      AllExtracted used (before :: rest) (after :: rest') (first ++ later)
end

variable {e : Element} {used : List String} {node after : Node} {nodes nodes' : List Node}
  {styles : List ClassStyle}

theorem gotClass_withClass (e : Element) (name : String) : GotClass e name (withClass e name) := by
  refine ⟨rfl, fun key hkey => ?_, fun before hbefore hne => ?_, fun hnone => ?_⟩
  · rw [get?_withClass, if_neg hkey]
  · rw [get?_withClass, if_pos rfl, hbefore, classesWith, if_neg (by simpa using hne)]
  · rw [get?_withClass, if_pos rfl]
    cases hclass : e.attrs.get? "class" with
    | none => rfl
    | some value =>
      cases value with
      | literal before =>
        obtain rfl := hnone before hclass
        rfl
      | dynamic r => rfl

/-! ## What extraction does to a tree -/

theorem extract_element {e' : Element} {own : List ClassStyle}
    (h : extractElement used e = (e', own)) (children : List Node) :
    extract used (.element e children) =
      (.element e' (extractAll (used ++ own.map (·.className)) children).1,
        own ++ (extractAll (used ++ own.map (·.className)) children).2) := by
  rw [extract, h]

mutual
theorem extracted_extract (used : List String) : ∀ node : Node,
    Extracted used node (extract used node).1 (extract used node).2
  | .text s => .text used s
  | .dynamic r => .dynamic used r
  | .element e children => by
    by_cases hplain : e.style.isEmpty = true
    · have hown : extractElement used e = (e, []) := if_pos hplain
      rw [extract_element hown, List.map_nil, List.append_nil]
      exact .plain hplain (allExtracted_extractAll used children)
    · obtain ⟨n, hname, hfirst⟩ := exists_classNameFor e used
      have hown : extractElement used e = (withClass e (candidate (classBase e) n),
          [⟨candidate (classBase e) n, e.style⟩]) := by
        rw [extractElement, if_neg hplain, hname]
      rw [extract_element hown]
      exact .styled (Bool.of_not_eq_true hplain) hfirst.le_length hfirst (gotClass_withClass e _)
        (allExtracted_extractAll _ children)

theorem allExtracted_extractAll (used : List String) : ∀ nodes : List Node,
    AllExtracted used nodes (extractAll used nodes).1 (extractAll used nodes).2
  | [] => .nil used
  | node :: rest => .cons (extracted_extract used node) (allExtracted_extractAll _ rest)
end

/-! ## The names -/

/-- Names are given once, and none that was in use. -/
def AllNew (used : List String) (styles : List ClassStyle) : Prop :=
  (styles.map (·.className)).Nodup ∧ ∀ s ∈ styles, s.className ∉ used

theorem AllNew.append {first later : List ClassStyle} (hfirst : AllNew used first)
    (hlater : AllNew (used ++ first.map (·.className)) later) : AllNew used (first ++ later) := by
  obtain ⟨hnodup, hnew⟩ := hfirst
  obtain ⟨hnodup', hnew'⟩ := hlater
  constructor
  · rw [List.map_append, List.nodup_append]
    refine ⟨hnodup, hnodup', ?_⟩
    rintro name hname _ hname' rfl
    obtain ⟨s, hs, rfl⟩ := List.mem_map.1 hname'
    exact hnew' s hs (List.mem_append_right _ hname)
  · intro s hs
    rcases List.mem_append.1 hs with hs | hs
    · exact hnew s hs
    · intro hused
      exact hnew' s hs (List.mem_append_left _ hused)

theorem allNew_singleton {s : ClassStyle} (h : s.className ∉ used) : AllNew used [s] :=
  ⟨List.nodup_singleton _, by simpa using h⟩

mutual
theorem Extracted.allNew {used : List String} {node after : Node} {styles : List ClassStyle} :
    Extracted used node after styles → AllNew used styles
  | .text _ _ => ⟨List.nodup_nil, by simp⟩
  | .dynamic _ _ => ⟨List.nodup_nil, by simp⟩
  | .plain _ below => below.allNew
  | .styled _ _ hfirst _ below => (allNew_singleton hfirst.free).append below.allNew

theorem AllExtracted.allNew {used : List String} {nodes nodes' : List Node}
    {styles : List ClassStyle} : AllExtracted used nodes nodes' styles → AllNew used styles
  | .nil _ => ⟨List.nodup_nil, by simp⟩
  | .cons hfirst hlater => hfirst.allNew.append hlater.allNew
end

/-! ## The rules -/

/-- The rule that a styled element gets for its class: one declaration for each property. -/
structure IsRuleFor (e : Element) (s : ClassStyle) : Prop where
  selector : s.rule.selector = "." ++ s.className
  declarations : s.rule.declarations =
    e.style.entries.map fun d => (dashCase d.1, resolveTokens d.2)
  text : s.rule.text = "." ++ s.className ++ " \x7b\n" ++
    String.join (e.style.entries.map fun d =>
      "  " ++ dashCase d.1 ++ ": " ++ resolveTokens d.2 ++ ";\n") ++ "\x7d"

theorem isRuleFor_own (e : Element) (name : String) : IsRuleFor e ⟨name, e.style⟩ := by
  have hselector : (ClassStyle.rule ⟨name, e.style⟩).selector = "." ++ name := rfl
  have hdeclarations : (ClassStyle.rule ⟨name, e.style⟩).declarations =
      e.style.entries.map fun d => (dashCase d.1, resolveTokens d.2) := rfl
  refine ⟨hselector, hdeclarations, ?_⟩
  rw [Rule.text, hselector, hdeclarations, declarationLines, List.map_map]
  rfl

mutual
theorem Extracted.rules {used : List String} {node after : Node} {styles : List ClassStyle} :
    Extracted used node after styles → List.Forall₂ IsRuleFor (styledAmong node.elements) styles
  | .text _ _ => .nil
  | .dynamic _ _ => .nil
  | .plain hplain below => by
    rw [Node.elements, styledAmong, List.filter_cons_of_neg (by simpa using hplain)]
    exact below.rules
  | .styled hstyled _ _ _ below => by
    rw [Node.elements, styledAmong, List.filter_cons_of_pos (by simpa using hstyled)]
    exact .cons (isRuleFor_own _ _) below.rules

theorem AllExtracted.rules {used : List String} {nodes nodes' : List Node}
    {styles : List ClassStyle} : AllExtracted used nodes nodes' styles →
      List.Forall₂ IsRuleFor (styledAmong (Node.elementsOfAll nodes)) styles
  | .nil _ => .nil
  | .cons hfirst hlater => by
    rw [Node.elementsOfAll, styledAmong, List.filter_append]
    exact List.rel_append hfirst.rules hlater.rules
end

/-- Each styled element gets one rule of its own, in the order of the tree, and the class that this
rule selects; no two rules are for one class; and nothing else in the tree changes. -/
theorem styles_extracted (node : Node) :
    Extracted [] node (extractStyles node).1 (extractStyles node).2 ∧
    List.Forall₂ IsRuleFor (styledAmong node.elements) (extractStyles node).2 ∧
    ((extractStyles node).2.map (·.className)).Nodup := by
  have h := extracted_extract [] node
  exact ⟨h, h.rules, h.allNew.1⟩

/-- A card, one that looks like a second card, and another card. -/
example : (extractStyles (.element { kind := "main" } (["card", "card-1", "card"].map fun name =>
    .element { kind := "div", name, style := Table.empty.insert "color" "red" } []))).2.map
      (·.className) = ["card", "card-1", "card-2"] := by
  decide +kernel

end Sitewright.Style
