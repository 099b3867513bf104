import Mathlib.Data.List.Nodup
import Sitewright.Proofs.Html.Documents

/-!
# Components that include themselves

A tree refers to shared components by the kinds of its elements, and their trees refer to further
ones. Inlining follows these references, and what it keeps on its stack are names: that of the page
and those of the components on the way. So it refuses a page exactly if on some way from its tree a
name comes up twice. A component that is reached again from its own tree is always refused. But so
is a component that has the name of the page, and one below another of its name.
-/

namespace Sitewright.Html

open Outcome

namespace Scope

variable {scope : Scope} {stack : List String} {owner c : Component} {node : Ui.Node}
  {nodes : List Ui.Node} {way : List (String × Component)}

mutual
/-- The shared components that stand in a tree, with the keys that refer to them. -/
def references (scope : Scope) : Ui.Node → List (String × Component)
  | .element e children =>
    match scope.external? e with
    | some c => [(e.kind, c)]
    | none => scope.referencesOfAll children
  | .text _ => []
  | .dynamic _ => []

def referencesOfAll (scope : Scope) : List Ui.Node → List (String × Component)
  | [] => []
  | node :: rest => scope.references node ++ scope.referencesOfAll rest
end

theorem references_external {e : Ui.Element} (h : scope.external? e = some c) :
    scope.references (.element e nodes) = [(e.kind, c)] := by
  rw [references, h]

theorem references_element {e : Ui.Element} (h : scope.external? e = none) :
    scope.references (.element e nodes) = scope.referencesOfAll nodes := by
  rw [references, h]

/-- A way from a tree along references, each from the tree of the component before it. -/
inductive Way (scope : Scope) : Ui.Node → List (String × Component) → Prop
  | nil (node : Ui.Node) : Way scope node []
  | cons {node : Ui.Node} {r : String × Component} {way : List (String × Component)} :
      r ∈ scope.references node → Way scope (scope.tree r.2) way → Way scope node (r :: way)

/-- Some way from a tree comes to an entry of the shared components that it has passed before. -/
def MeetsItself (scope : Scope) (node : Ui.Node) : Prop :=
  ∃ way, scope.Way node way ∧ ¬ (way.map Prod.fst).Nodup

def namesAlong (stack : List String) (c : Component) (way : List (String × Component)) :
    List String :=
  stack ++ c.name :: way.map (·.2.name)

/-- From one of some components, a way leads to a name that has come up before. -/
def Collides (scope : Scope) (stack : List String) (cs : List (String × Component)) : Prop :=
  ∃ r ∈ cs, ∃ way, scope.Way (scope.tree r.2) way ∧ ¬ (namesAlong stack r.2 way).Nodup

theorem not_collides_nil : ¬ scope.Collides stack [] := by
  rintro ⟨r, hr, -⟩
  cases hr

theorem collides_singleton {r : String × Component} : scope.Collides stack [r] ↔
    ∃ way, scope.Way (scope.tree r.2) way ∧ ¬ (namesAlong stack r.2 way).Nodup := by
  simp only [Collides, List.mem_singleton, exists_eq_left]

theorem collides_append {cs ds : List (String × Component)} :
    scope.Collides stack (cs ++ ds) ↔ scope.Collides stack cs ∨ scope.Collides stack ds := by
  simp only [Collides, List.mem_append, or_and_right, exists_or]

/-- A way from a component meets a name again if that of the component is on the stack, or else if
it does so after the component. -/
theorem exists_way_repeats_iff (hstack : (stack ++ [c.name]).Nodup) :
    (∃ way, scope.Way (scope.tree c) way ∧ ¬ (namesAlong stack c way).Nodup) ↔
      scope.Collides (stack ++ [c.name]) (scope.references (scope.tree c)) := by
  constructor
  · rintro ⟨way, hway, hrepeats⟩
    cases hway with
    | nil => exact absurd hstack hrepeats
    | @cons _ r way hr hway => exact ⟨r, hr, way, hway, by rwa [namesAlong, List.append_assoc]⟩
  · rintro ⟨r, hr, way, hway, hrepeats⟩
    refine ⟨r :: way, .cons hr hway, ?_⟩
    rwa [namesAlong, List.append_assoc] at hrepeats

theorem exists_error_iff (scope : Scope) :
    (∀ stack owner node, stack.Nodup →
      ((∃ f, scope.expand stack owner node = .error f) ↔
        scope.Collides stack (scope.references node))) ∧
    (∀ stack owner nodes, stack.Nodup →
      ((∃ f, scope.expandAll stack owner nodes = .error f) ↔
        scope.Collides stack (scope.referencesOfAll nodes))) ∧
    ∀ stack c hc, stack.Nodup →
      ((∃ f, scope.inline stack c hc = .error f) ↔
        ∃ way, scope.Way (scope.tree c) way ∧ ¬ (namesAlong stack c way).Nodup) := by
  refine expand_induction (P := fun stack _ node result => stack.Nodup →
      ((∃ f, result = .error f) ↔ scope.Collides stack (scope.references node)))
    (Q := fun stack _ nodes result => stack.Nodup →
      ((∃ f, result = .error f) ↔ scope.Collides stack (scope.referencesOfAll nodes)))
    (R := fun stack c result => stack.Nodup → ((∃ f, result = .error f) ↔
      ∃ way, scope.Way (scope.tree c) way ∧ ¬ (namesAlong stack c way).Nodup)) scope
    ?text ?dynamic ?external ?element ?nil ?cons ?again ?inlined
  case text => exact fun stack owner s _ => iff_of_false (not_exists_ok_error _) not_collides_nil
  case dynamic => exact fun stack owner r _ => iff_of_false (not_exists_ok_error _) not_collides_nil
  case external =>
    intro stack owner e nodes c result hc ih hstack
    rw [references_external hc, collides_singleton]
    exact ih hstack
  case element =>
    intro stack owner e nodes result hnone ih hstack
    rw [references_element hnone, exists_map_error_iff]
    exact ih hstack
  case nil => exact fun stack owner _ => iff_of_false (not_exists_ok_error _) not_collides_nil
  case cons =>
    intro stack owner node rest first later ih ihrest hstack
    rw [referencesOfAll, collides_append, ← ih hstack, ← ihrest hstack]
    exact exists_pair_error_iff
  case again =>
    intro stack c hopen _
    refine iff_of_true ⟨_, rfl⟩ ⟨[], .nil _, fun hnodup => ?_⟩
    exact (List.nodup_append.1 hnodup).2.2 _ hopen _ List.mem_cons_self rfl
  case inlined =>
    intro stack c result hfree ih hstack
    have hstack' : (stack ++ [c.name]).Nodup :=
      List.nodup_append.2 ⟨hstack, List.nodup_singleton _, by
        rintro a ha b hb rfl
        exact hfree (List.mem_singleton.1 hb ▸ ha)⟩
    rw [exists_map_error_iff, exists_way_repeats_iff hstack']
    exact ih hstack'

theorem exists_expand_error_iff (hstack : stack.Nodup) :
    (∃ f, scope.expand stack owner node = .error f) ↔
      ∃ way, scope.Way node way ∧ ¬ (stack ++ way.map (·.2.name)).Nodup := by
  rw [scope.exists_error_iff.1 stack owner node hstack]
  constructor
  · rintro ⟨r, hr, way, hway, hrepeats⟩
    exact ⟨r :: way, .cons hr hway, hrepeats⟩
  · rintro ⟨way, hway, hrepeats⟩
    cases hway with
    | nil => exact absurd (by simpa using hstack) hrepeats
    | @cons _ r way hr hway => exact ⟨r, hr, way, hway, hrepeats⟩

mutual
theorem get?_of_mem_references (scope : Scope) : ∀ (node : Ui.Node) {r : String × Component},
    r ∈ scope.references node → scope.options.externals.get? r.1 = some r.2
  | .text _, _, h => nomatch h
  | .dynamic _, _, h => nomatch h
  | .element e children, r, h => by
    cases hc : scope.external? e with
    | some c =>
      rw [references_external hc] at h
      obtain rfl := List.mem_singleton.1 h
      exact hc
    | none =>
      rw [references_element hc] at h
      exact get?_of_mem_referencesOfAll scope children h

theorem get?_of_mem_referencesOfAll (scope : Scope) : ∀ (nodes : List Ui.Node)
    {r : String × Component}, r ∈ scope.referencesOfAll nodes →
      scope.options.externals.get? r.1 = some r.2
  | [], _, h => nomatch h
  | node :: rest, _, h => by
    rw [referencesOfAll] at h
    rcases List.mem_append.1 h with h | h
    · exact get?_of_mem_references scope node h
    · exact get?_of_mem_referencesOfAll scope rest h
end

theorem Way.get? (h : scope.Way node way) :
    ∀ r ∈ way, scope.options.externals.get? r.1 = some r.2 := by
  induction h with
  | nil => exact fun r hr => nomatch hr
  | cons hr _ ih => exact List.forall_mem_cons.2 ⟨get?_of_mem_references scope _ hr, ih⟩

/-- On a way, entries with one key are one entry. -/
theorem Way.eq_of_key_eq (h : scope.Way node way) {r s : String × Component} (hr : r ∈ way)
    (hs : s ∈ way) (heq : r.1 = s.1) : r = s := by
  have hget := h.get? s hs
  rw [← heq, h.get? r hr] at hget
  exact Prod.ext heq (Option.some.inj hget)

theorem Way.nodup_keys_iff (h : scope.Way node way) : (way.map Prod.fst).Nodup ↔ way.Nodup :=
  ⟨List.Nodup.of_map _, List.Nodup.map_on fun _ hr _ hs => h.eq_of_key_eq hr hs⟩

/-- On a way that passes no entry twice, the names repeat only where two entries share one. -/
theorem Way.nodup_names_iff (h : scope.Way node way) : (way.map (·.2.name)).Nodup ↔
    (way.map Prod.fst).Nodup ∧ ∀ r ∈ way, ∀ s ∈ way, r.2.name = s.2.name → r.1 = s.1 := by
  rw [h.nodup_keys_iff]
  constructor
  · intro hnames
    refine ⟨hnames.of_map, fun r hr s hs heq => ?_⟩
    rw [List.inj_on_of_nodup_map hnames hr hs heq]
  · rintro ⟨hnodup, happart⟩
    exact hnodup.map_on fun r hr s hs heq => h.eq_of_key_eq hr hs (happart r hr s hs heq)

end Scope

def pageScope (d : Draft) : Scope := ⟨d.mapping, d.options⟩

def FindsSelfInclusion (d : Draft) : Prop :=
  ∃ stack name, template.run d = .error (Scope.selfInclusion stack name)

theorem findsSelfInclusion_iff (d : Draft) : FindsSelfInclusion d ↔
    ∃ f, (pageScope d).expand [d.component.name] d.component d.component.node = .error f := by
  constructor
  · rintro ⟨stack, name, h⟩
    rcases exists_ok_or_error (body d) with ⟨⟨page, sheets⟩, hbody⟩ | ⟨f, hbody⟩
    · -- what is left to fail are the imports of the style sheets, with another fault
      simp only [template, hbody, bind, Except.bind] at h
      cases himports : d.importAll
          (sheets.map fun path => (path, (Dependency.localPath path).sideEffect)) with
      | ok next =>
        rw [himports] at h
        cases h
      | error f =>
        obtain ⟨_, _, _, rfl⟩ := Imports.mergeAll_error (map_error_iff.1 himports)
        rw [himports] at h
        cases h
    · rw [body_eq, map_error_iff] at hbody
      exact ⟨f, hbody⟩
  · rintro ⟨f, h⟩
    obtain ⟨stack, name, rfl⟩ := (pageScope d).expand_error.1 _ _ _ f h
    refine ⟨stack, name, run_template_of_error ?_⟩
    rw [body_eq, map_error_iff]
    exact h

/-- A page is refused exactly if a way from its tree passes an entry twice, or an entry with the
name of the page, or two entries with one name. -/
theorem self_inclusion_found_iff (d : Draft) : FindsSelfInclusion d ↔
    (pageScope d).MeetsItself d.component.node ∨
    (∃ way, (pageScope d).Way d.component.node way ∧ ∃ r ∈ way, r.2.name = d.component.name) ∨
    ∃ way, (pageScope d).Way d.component.node way ∧
      ∃ r ∈ way, ∃ s ∈ way, r.1 ≠ s.1 ∧ r.2.name = s.2.name := by
  rw [findsSelfInclusion_iff, Scope.exists_expand_error_iff (List.nodup_singleton _)]
  have hrepeats : ∀ names : List String, ¬ ([d.component.name] ++ names).Nodup ↔
      d.component.name ∈ names ∨ ¬ names.Nodup := by
    intro names
    rw [List.singleton_append, List.nodup_cons, not_and_or, not_not]
  simp only [hrepeats]
  constructor
  · rintro ⟨way, hway, hpage | hnames⟩
    · exact .inr (.inl ⟨way, hway, List.mem_map.1 hpage⟩)
    · rw [hway.nodup_names_iff, not_and_or] at hnames
      rcases hnames with hkeys | hshared
      · exact .inl ⟨way, hway, hkeys⟩
      · push Not at hshared
        obtain ⟨r, hr, s, hs, hname, hkey⟩ := hshared
        exact .inr (.inr ⟨way, hway, r, hr, s, hs, hkey, hname⟩)
  · rintro (⟨way, hway, hkeys⟩ | ⟨way, hway, r, hr, hname⟩ | ⟨way, hway, r, hr, s, hs, hkey, hname⟩)
    · exact ⟨way, hway, .inr fun hnames => hkeys (hway.nodup_names_iff.1 hnames).1⟩
    · exact ⟨way, hway, .inl (hname ▸ List.mem_map_of_mem hr)⟩
    · exact ⟨way, hway, .inr fun hnames => hkey ((hway.nodup_names_iff.1 hnames).2 r hr s hs hname)⟩

def label : Component where
  name := "Card"
  node := .text "new"

def frame : Component where
  name := "Card"
  node := .element { kind := "Card" } []

def labelPage : Draft where
  component := { name := "Card", node := .element { kind := "Card" } [] }
  options := { externals := Table.empty.insert "Card" label }

def framePage : Draft where
  component := { name := "Home", node := .element { kind := "Frame" } [] }
  options := { externals := (Table.empty.insert "Card" label).insert "Frame" frame }

theorem labelPage_refused : FindsSelfInclusion labelPage ∧
    ¬ (pageScope labelPage).MeetsItself labelPage.component.node := by
  have hlabel : (pageScope labelPage).external? { kind := "Card" } = some label := rfl
  have hnode : labelPage.component.node = .element { kind := "Card" } [] := rfl
  constructor
  · refine (findsSelfInclusion_iff _).2 ⟨Scope.selfInclusion ["Card"] "Card", ?_⟩
    rw [hnode, Scope.expand_external hlabel, Scope.inline_of_mem _ (by decide)]
    rfl
  · rintro ⟨way, hway, hrepeats⟩
    rw [hnode] at hway
    cases hway with
    | nil => exact hrepeats List.nodup_nil
    | cons hr hrest =>
      rw [Scope.references_external hlabel] at hr
      obtain rfl := List.mem_singleton.1 hr
      cases hrest with
      | nil => exact hrepeats (List.nodup_singleton _)
      | cons hr _ => cases hr

theorem framePage_refused : FindsSelfInclusion framePage ∧
    ¬ (pageScope framePage).MeetsItself framePage.component.node := by
  have hframe : (pageScope framePage).external? { kind := "Frame" } = some frame := rfl
  have hlabel : (pageScope framePage).external? { kind := "Card" } = some label := rfl
  have hnode : framePage.component.node = .element { kind := "Frame" } [] := rfl
  have htree : (pageScope framePage).tree frame = .element { kind := "Card" } [] := rfl
  constructor
  · refine (findsSelfInclusion_iff _).2 ⟨Scope.selfInclusion ["Home", "Card"] "Card", ?_⟩
    rw [hnode, Scope.expand_external hframe, Scope.inline_of_notMem _ (by decide), htree,
      Scope.expand_external hlabel, Scope.inline_of_mem _ (by decide)]
    rfl
  · rintro ⟨way, hway, hrepeats⟩
    rw [hnode] at hway
    cases hway with
    | nil => exact hrepeats List.nodup_nil
    | cons hr hrest =>
      rw [Scope.references_external hframe] at hr
      obtain rfl := List.mem_singleton.1 hr
      rw [htree] at hrest
      cases hrest with
      | nil => exact hrepeats (List.nodup_singleton _)
      | cons hr hrest =>
        rw [Scope.references_external hlabel] at hr
        obtain rfl := List.mem_singleton.1 hr
        cases hrest with
        | nil => exact hrepeats (by decide)
        | cons hr _ => cases hr

/-- A page is refused that has a component of its own name in it, and so is one that has a component
below another of the same name, although none of them includes itself. -/
theorem namesakes_refused :
    (FindsSelfInclusion labelPage ∧
      ¬ (pageScope labelPage).MeetsItself labelPage.component.node) ∧
    FindsSelfInclusion framePage ∧
      ¬ (pageScope framePage).MeetsItself framePage.component.node :=
  ⟨labelPage_refused, framePage_refused⟩

end Sitewright.Html
