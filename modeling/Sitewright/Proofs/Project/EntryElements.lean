import Sitewright.Proofs.Chunk.Store
import Sitewright.Proofs.Markup.Attributes
import Sitewright.Project.Entry

/-!
# Elements of the entry document

A custom tag and a script asset each determine an element. The body holds those that are targeted at
it, in the order in which they are listed, between the root of the application and the custom code;
the other scripts stand in the head.
-/

namespace Sitewright.Entry

open Markup (Element Child Attr)

variable {t : CustomTag} {assetsPrefix path : String} {a : Asset} {e e' : Element}

/-- An element as a custom tag describes it. Of attributes with the same key, the first gives the
place and the last the value. -/
structure IsCustomTag (t : CustomTag) (e : Element) : Prop where
  tag : e.tag = t.name
  children : e.children = (t.content.map Child.text).toList
  keys : e.attrs.map Prod.fst = (t.attributes.map (·.key)).eraseDups
  values : ∀ key, e.attr? key =
    ((t.attributes.map fun a => (a.key, a.value)).reverse.lookup key).map
      fun value => value.elim .flag .literal

/-- An element as a script asset describes it: one with an address has no content. -/
structure IsScript (assetsPrefix : String) (a : Asset) (e : Element) : Prop where
  tag : e.tag = "script"
  linked : ∀ path, a.path = some path → e.children = [] ∧ e.attrs =
    [("type", .literal "text/javascript"), ("src", .literal (prefixAssetPath assetsPrefix path))] ++
      (if a.options.defer then [("defer", .flag)] else []) ++
      (if a.options.isAsync then [("async", .flag)] else [])
  inlined : a.path = none → e.children = (a.content.map Child.text).toList ∧
    e.attrs = [("type", .literal "text/javascript")]

theorem IsCustomTag.eq (h : IsCustomTag t e) (h' : IsCustomTag t e') : e = e' := by
  have hattrs : e.attrs = e'.attrs :=
    Table.eq_of_lookup_eq (h.keys ▸ nodup_eraseDups _) (h.keys.trans h'.keys.symm)
      fun key => (h.values key).trans (h'.values key).symm
  exact Element.ext (h.tag.trans h'.tag.symm) hattrs (h.children.trans h'.children.symm)

theorem IsScript.eq (h : IsScript assetsPrefix a e) (h' : IsScript assetsPrefix a e') : e = e' := by
  have htag := h.tag.trans h'.tag.symm
  cases hpath : a.path with
  | some path =>
    obtain ⟨hchildren, hattrs⟩ := h.linked path hpath
    obtain ⟨hchildren', hattrs'⟩ := h'.linked path hpath
    exact Element.ext htag (hattrs.trans hattrs'.symm) (hchildren.trans hchildren'.symm)
  | none =>
    obtain ⟨hchildren, hattrs⟩ := h.inlined hpath
    obtain ⟨hchildren', hattrs'⟩ := h'.inlined hpath
    exact Element.ext htag (hattrs.trans hattrs'.symm) (hchildren.trans hchildren'.symm)

theorem customTag_eq (t : CustomTag) :
    customTag t = ⟨t.name, (t.attributes.map fun a => (a.key, a.value)).foldl
      (fun attrs a => Markup.setAttr a.1 (a.2.elim .flag .literal) attrs) [],
      (t.content.map Child.text).toList⟩ := by
  calc customTag t
      = t.attributes.foldl (fun e a => e.set a.key (a.value.elim .flag .literal))
          { tag := t.name, children := (t.content.map Child.text).toList } := by
        rw [customTag]
        congr 1
        funext e a
        cases a.value <;> rfl
    _ = _ := by rw [Markup.foldl_set, List.foldl_map]

theorem isCustomTag_customTag (t : CustomTag) : IsCustomTag t (customTag t) := by
  rw [customTag_eq]
  refine ⟨rfl, rfl, ?_, fun key => ?_⟩
  · rw [Markup.keys_foldl_setAttr (fun value : Option String => value.elim .flag .literal),
      List.map_map]
    rfl
  · rw [Element.attr?,
      Markup.lookup_foldl_setAttr (fun value : Option String => value.elim .flag .literal)]
    exact Option.or_none

/-! ## Scripts -/

def assetScript (assetsPrefix : String) (a : Asset) : Element :=
  scriptTag a.options (a.path.map (prefixAssetPath assetsPrefix)) a.content

theorem scriptTag_some (o : AssetOptions) (path : String) (content : Option String) :
    scriptTag o (some path) content =
      ⟨"script", [("type", .literal "text/javascript"), ("src", .literal path)] ++
        (if o.defer then [("defer", .flag)] else []) ++
        (if o.isAsync then [("async", .flag)] else []), []⟩ := by
  unfold scriptTag
  cases o.defer <;> cases o.isAsync <;> rfl

theorem scriptTag_none (o : AssetOptions) (content : Option String) :
    scriptTag o none content =
      ⟨"script", [("type", .literal "text/javascript")], (content.map Child.text).toList⟩ := by
  cases content <;> rfl

theorem isScript_assetScript (assetsPrefix : String) (a : Asset) :
    IsScript assetsPrefix a (assetScript assetsPrefix a) := by
  cases hpath : a.path with
  | some path =>
    rw [assetScript, hpath, Option.map_some, scriptTag_some]
    refine ⟨rfl, fun path' hpath' => ?_, fun hnone => ?_⟩
    · obtain rfl := Option.some.inj (hpath.symm.trans hpath')
      exact ⟨rfl, rfl⟩
    · cases hpath.symm.trans hnone
  | none =>
    rw [assetScript, hpath, Option.map_none, scriptTag_none]
    refine ⟨rfl, fun path hsome => ?_, fun _ => ⟨rfl, rfl⟩⟩
    cases hpath.symm.trans hsome

theorem scriptTarget?_eq_some_iff {target : TargetTag} :
    scriptTarget? a = some target ↔
      a.kind = .script ∧ (a.options.target = some "body" ↔ target = .body) := by
  unfold scriptTarget?
  cases hkind : a.kind with
  | script =>
    by_cases hbody : a.options.target = some "body"
    · cases target <;> simp [hbody]
    · cases target <;> simp [hbody]
  | _ => simp

theorem tag_of_assetLink? {kind : AssetKind} {o : AssetOptions}
    (h : assetLink? kind o path = some e) : e.tag = "link" := by
  cases kind with
  | icon =>
    obtain rfl := Option.some.inj h
    unfold iconTag
    cases o.iconType <;> cases o.iconSizes <;> rfl
  | script => cases h
  | _ =>
    obtain rfl := Option.some.inj h
    rfl

theorem tag_of_inlineStyle? (h : inlineStyle? a = some e) : e.tag = "style" := by
  unfold inlineStyle? at h
  split at h
  · obtain ⟨content, -, rfl⟩ := Option.map_eq_some_iff.1 h
    rfl
  · cases h

theorem filter_assetTags (assetsPrefix : String) (target : TargetTag) (a : Asset) :
    (assetTags assetsPrefix target a).filter (·.tag = "script") =
      if scriptTarget? a = some target then [assetScript assetsPrefix a] else [] := by
  have hscript := (isScript_assetScript assetsPrefix a).tag
  have hlinks : ((a.path.map (prefixAssetPath assetsPrefix)).bind
      (assetLink? a.kind a.options)).toList.filter (·.tag = "script") = [] := by
    refine List.filter_eq_nil_iff.2 fun e he => ?_
    obtain ⟨path, -, he⟩ := Option.bind_eq_some_iff.1 (Option.mem_toList.1 he)
    simp [tag_of_assetLink? he]
  have hstyles : (inlineStyle? a).toList.filter (·.tag = "script") = [] := by
    refine List.filter_eq_nil_iff.2 fun e he => ?_
    simp [tag_of_inlineStyle? (Option.mem_toList.1 he)]
  simp only [assetTags, List.filter_append]
  rw [← assetScript]
  by_cases hhead : target = .head
  · rw [if_pos hhead, List.filter_append, hlinks, hstyles]
    split
    · simp [hscript]
    · rfl
  · rw [if_neg hhead]
    split
    · simp [hscript]
    · rfl

theorem flatMap_ite (assetsPrefix : String) (target : TargetTag) (assets : List Asset) :
    (assets.flatMap fun a =>
      if scriptTarget? a = some target then [assetScript assetsPrefix a] else []) =
      (assets.filter (scriptTarget? · = some target)).map (assetScript assetsPrefix) := by
  induction assets with
  | nil => rfl
  | cons a assets ih =>
    rw [List.flatMap_cons, ih, List.filter_cons]
    by_cases ha : scriptTarget? a = some target
    · simp [ha]
    · simp [ha]

theorem filter_flatMap_assetTags (assetsPrefix : String) (target : TargetTag)
    (assets : List Asset) :
    (assets.flatMap (assetTags assetsPrefix target)).filter (·.tag = "script") =
      (assets.filter (scriptTarget? · = some target)).map (assetScript assetsPrefix) := by
  rw [List.filter_flatMap, ← flatMap_ite]
  exact List.flatMap_congr fun a _ => filter_assetTags assetsPrefix target a

theorem tag_metaTag (assetsPrefix : String) (values : Table String) :
    (Html.metaTag assetsPrefix values).tag = "meta" :=
  congrArg Element.tag (Markup.foldl_set Prod.fst
    (fun e => .literal (prefixAssetPath assetsPrefix e.2)) values.entries { tag := "meta" })

/-- The scripts of the head are its custom tags of that name and the scripts of assets. -/
theorem scripts_head (p : Project) (options : EntryOptions) :
    (({ tag := "head", children := headChildren p options } : Element).elements).filter
        (·.tag = "script") =
      (customTags options .head).filter (·.tag = "script") ++
        (p.globals.assets.filter (scriptTarget? · = some .head)).map
          (assetScript (options.assetsPrefix.getD "")) := by
  have helements (l : List Element) : (l.map (·.toChild)).filterMap Child.element? = l := by
    rw [List.filterMap_map]
    exact List.filterMap_some
  have hraw (code : Option String) : (code.map Child.raw).toList.filterMap Child.element? = [] := by
    cases code <;> rfl
  have htitle : (p.globals.settings.title.map Html.titleTag).toList.filter (·.tag = "script") =
      [] := by
    cases p.globals.settings.title <;> rfl
  have hmanifest (href : String) : (if p.globals.manifest.isSome = true then [link "manifest" href]
      else []).filter (·.tag = "script") = [] := by
    split <;> rfl
  have hmeta : (p.globals.metaTags.map (Html.metaTag (options.assetsPrefix.getD ""))).filter
      (·.tag = "script") = [] := by
    refine List.filter_eq_nil_iff.2 fun e he => ?_
    obtain ⟨values, -, rfl⟩ := List.mem_map.1 he
    simp [tag_metaTag]
  simp only [Element.elements, headChildren, List.filterMap_append, helements, hraw,
    List.append_nil, List.filter_append, htitle, hmanifest, hmeta, List.nil_append,
    filter_flatMap_assetTags]

/-- What the head and the body of an entry document hold. -/
structure Holds (p : Project) (options : EntryOptions) (head body : Element) : Prop where
  tags : (document p options).tag = "html" ∧ head.tag = "head" ∧ body.tag = "body"
  body : ∃ custom scripts,
    List.Forall₂ IsCustomTag (options.customTags.filter (·.target = .body)) custom ∧
    List.Forall₂ (IsScript (options.assetsPrefix.getD ""))
      (p.globals.assets.filter fun a => a.kind = .script ∧ a.options.target = some "body")
      scripts ∧
    body.children =
      (options.appRoot.map Child.raw).getD (.element "div" [("id", .literal "app")] []) ::
        (custom ++ scripts).map (·.toChild) ++
        ((p.globals.customCode.bind (·.body)).map Child.raw).toList
  head : ∃ custom scripts,
    List.Forall₂ IsCustomTag
      (options.customTags.filter fun t => t.target = .head ∧ t.name = "script") custom ∧
    List.Forall₂ (IsScript (options.assetsPrefix.getD ""))
      (p.globals.assets.filter fun a => a.kind = .script ∧ a.options.target ≠ some "body")
      scripts ∧
    head.elements.filter (·.tag = "script") = custom ++ scripts
  /-- An asset gives one script to both parts together if it is a script, and otherwise none. -/
  once : ∀ a : Asset, List.Forall₂ (IsScript (options.assetsPrefix.getD ""))
    (if a.kind = .script then [a] else [])
    ((assetTags (options.assetsPrefix.getD "") .head a ++
      assetTags (options.assetsPrefix.getD "") .body a).filter (·.tag = "script"))

theorem forall₂_customTag (tags : List CustomTag) :
    List.Forall₂ IsCustomTag tags (tags.map customTag) :=
  List.forall₂_map_right_iff.2 (List.forall₂_same.2 fun t _ => isCustomTag_customTag t)

theorem forall₂_assetScript (assetsPrefix : String) (assets : List Asset) :
    List.Forall₂ (IsScript assetsPrefix) assets (assets.map (assetScript assetsPrefix)) :=
  List.forall₂_map_right_iff.2 (List.forall₂_same.2 fun a _ => isScript_assetScript assetsPrefix a)

theorem filter_customTags (options : EntryOptions) :
    (customTags options .head).filter (·.tag = "script") =
      (options.customTags.filter fun t => t.target = .head ∧ t.name = "script").map customTag := by
  rw [customTags, List.filter_map, List.filter_filter]
  congr 2
  funext t
  simp [(isCustomTag_customTag t).tag, and_comm]

theorem filter_scriptTarget? (assets : List Asset) (target : TargetTag) :
    assets.filter (scriptTarget? · = some target) = assets.filter fun a =>
      a.kind = .script ∧ (a.options.target = some "body" ↔ target = .body) := by
  congr 1
  funext a
  simp [scriptTarget?_eq_some_iff]

theorem exists_holds (p : Project) (options : EntryOptions) : ∃ head body,
    (document p options).children = [head.toChild, body.toChild] ∧ Holds p options head body := by
  have htag : (document p options).tag = "html" := by
    rw [document]
    cases p.globals.settings.language <;> rfl
  refine ⟨{ tag := "head", children := headChildren p options },
    { tag := "body", children := bodyChildren p options }, ?_, ⟨htag, rfl, rfl⟩,
    ⟨_, _, forall₂_customTag _, forall₂_assetScript _ _, ?_⟩,
    ⟨_, _, forall₂_customTag _, forall₂_assetScript _ _, ?_⟩, fun a => ?_⟩
  · rw [document]
    cases p.globals.settings.language <;> rfl
  · have hscripts : p.globals.assets.flatMap (assetTags (options.assetsPrefix.getD "") .body) =
        (p.globals.assets.filter fun a => a.kind = .script ∧ a.options.target = some "body").map
          (assetScript (options.assetsPrefix.getD "")) := by
      have hbody := filter_scriptTarget? p.globals.assets .body
      simp only [iff_true] at hbody
      rw [← hbody]
      exact flatMap_ite _ _ _
    rw [bodyChildren, hscripts]
    cases options.appRoot with
    | some markup => rfl
    | none => rfl
  · have hhead := filter_scriptTarget? p.globals.assets .head
    simp only [reduceCtorEq, iff_false] at hhead
    rw [scripts_head, filter_customTags, hhead]
  · rw [List.filter_append, filter_assetTags, filter_assetTags]
    simp only [scriptTarget?_eq_some_iff]
    by_cases hscript : a.kind = .script
    · by_cases hbody : a.options.target = some "body"
      · simpa [hscript, hbody] using isScript_assetScript _ a
      · simpa [hscript, hbody] using isScript_assetScript _ a
    · simp [hscript]

end Sitewright.Entry
