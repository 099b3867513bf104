import Mathlib.Logic.Relation
import Sitewright.Proofs.Html.Texts
import Sitewright.Proofs.Style.Classes

/-!
# Style sheets of inlined components

What is inlined in a page is reached from it along references from tree to tree. An expansion that
succeeds collects the style sheets of just these components, of those that have one: each way along
references is followed to its end, and nothing is passed over because it has come up before.
-/

namespace Sitewright.Html.Scope

open Outcome Relation Style

variable {scope : Scope} {stack : List String} {owner b c : Component} {path : String}
  {cs ds : List (String × Component)} {children : List Markup.Child} {sheets : List String}

/-- The mapped tree of a component has a reference to another one. -/
def Refers (scope : Scope) (b c : Component) : Prop :=
  ∃ key, (key, c) ∈ scope.references (scope.mapping.resolveTree b.node)

/-- A component is inlined in the page of another, directly or through further ones. -/
def Inlined (scope : Scope) (page c : Component) : Prop := TransGen scope.Refers page c

def Styled (scope : Scope) (c : Component) : Prop :=
  ∃ e ∈ (scope.mapping.resolveTree c.node).elements, e.style.isEmpty = false

theorem styles_ne_nil_iff : scope.styles c ≠ [] ↔ scope.Styled c :=
  (classed_extract [] (scope.mapping.resolveTree c.node)).styles_ne_nil_iff

theorem mem_ownSheets_iff :
    path ∈ scope.ownSheets c ↔ scope.Styled c ∧ path = scope.styleSheetPath c := by
  rw [← styles_ne_nil_iff, ownSheets]
  by_cases hstyles : scope.styles c = []
  · simp [hstyles]
  · rw [if_neg (by simpa using hstyles), List.mem_singleton]
    exact (and_iff_right hstyles).symm

/-! ## References -/

theorem external?_extractElement (scope : Scope) (used : List String) (e : Ui.Element) :
    scope.external? (extractElement used e).1 = scope.external? e := by
  rw [external?, kind_extractElement, external?]

mutual
/-- Classes for the styles of a tree change no reference in it. -/
theorem references_extract (scope : Scope) (used : List String) : ∀ node : Ui.Node,
    scope.references (extract used node).1 = scope.references node
  | .text _ => rfl
  | .dynamic _ => rfl
  | .element e nodes => by
    obtain ⟨later, hlater⟩ : ∃ later, (extract used (.element e nodes)).1 =
        .element (extractElement used e).1 (extractAll later nodes).1 := ⟨_, rfl⟩
    rw [hlater]
    cases hc : scope.external? e with
    | some c =>
      have hc' := (external?_extractElement scope used e).trans hc
      rw [references_external hc', references_external hc, kind_extractElement]
    | none =>
      have hc' := (external?_extractElement scope used e).trans hc
      rw [references_element hc', references_element hc, referencesOfAll_extractAll scope later]

theorem referencesOfAll_extractAll (scope : Scope) (used : List String) : ∀ nodes : List Ui.Node,
    scope.referencesOfAll (extractAll used nodes).1 = scope.referencesOfAll nodes
  | [] => rfl
  | node :: rest => by
    obtain ⟨later, hlater⟩ : ∃ later, (extractAll used (node :: rest)).1 =
        (extract used node).1 :: (extractAll later rest).1 := ⟨_, rfl⟩
    rw [hlater, referencesOfAll, referencesOfAll, references_extract scope used,
      referencesOfAll_extractAll scope later]
end

theorem references_tree (scope : Scope) (c : Component) :
    scope.references (scope.tree c) = scope.references (scope.mapping.resolveTree c.node) :=
  references_extract scope [] _

/-! ## Sheets below references -/

/-- A path is that of the style sheet of a component, or of one inlined in it. -/
def SheetWithin (scope : Scope) (c : Component) (path : String) : Prop :=
  ∃ d, ReflTransGen scope.Refers c d ∧ scope.Styled d ∧ path = scope.styleSheetPath d

def SheetAmong (scope : Scope) (cs : List (String × Component)) (path : String) : Prop :=
  ∃ r ∈ cs, scope.SheetWithin r.2 path

theorem not_sheetAmong_nil : ¬ scope.SheetAmong [] path := by
  rintro ⟨r, hr, -⟩
  cases hr

theorem sheetAmong_singleton {r : String × Component} :
    scope.SheetAmong [r] path ↔ scope.SheetWithin r.2 path := by
  simp only [SheetAmong, List.mem_singleton, exists_eq_left]

theorem sheetAmong_append :
    scope.SheetAmong (cs ++ ds) path ↔ scope.SheetAmong cs path ∨ scope.SheetAmong ds path := by
  simp only [SheetAmong, List.mem_append, or_and_right, exists_or]

/-- Within a component there is its own sheet and those among its references. -/
theorem sheetWithin_iff : scope.SheetWithin c path ↔
    path ∈ scope.ownSheets c ∨ scope.SheetAmong (scope.references (scope.tree c)) path := by
  rw [mem_ownSheets_iff, references_tree]
  constructor
  · rintro ⟨d, hway, hstyled, hpath⟩
    rcases hway.cases_head with rfl | ⟨b, ⟨key, hb⟩, hway⟩
    · exact .inl ⟨hstyled, hpath⟩
    · exact .inr ⟨(key, b), hb, d, hway, hstyled, hpath⟩
  · rintro (⟨hstyled, hpath⟩ | ⟨⟨key, b⟩, hb, d, hway, hstyled, hpath⟩)
    · exact ⟨c, .refl, hstyled, hpath⟩
    · exact ⟨d, .head ⟨key, hb⟩ hway, hstyled, hpath⟩

theorem sheetAmong_references_iff : scope.SheetAmong (scope.references (scope.tree c)) path ↔
    ∃ d, scope.Inlined c d ∧ scope.Styled d ∧ path = scope.styleSheetPath d := by
  rw [references_tree]
  constructor
  · rintro ⟨⟨key, b⟩, hb, d, hway, hstyled, hpath⟩
    exact ⟨d, .head' ⟨key, hb⟩ hway, hstyled, hpath⟩
  · rintro ⟨d, hinlined, hstyled, hpath⟩
    obtain ⟨b, ⟨key, hb⟩, hway⟩ := TransGen.head'_iff.1 hinlined
    exact ⟨(key, b), hb, d, hway, hstyled, hpath⟩

/-! ## Expansion -/

theorem mem_sheets_iff (scope : Scope) :
    (∀ stack owner node r, scope.expand stack owner node = .ok r → ∀ path,
      path ∈ r.2 ↔ scope.SheetAmong (scope.references node) path) ∧
    (∀ stack owner nodes r, scope.expandAll stack owner nodes = .ok r → ∀ path,
      path ∈ r.2 ↔ scope.SheetAmong (scope.referencesOfAll nodes) path) ∧
    ∀ stack c hc r, scope.inline stack c hc = .ok r → ∀ path,
      path ∈ r.2 ↔ scope.SheetWithin c path := by
  refine expand_ok_induction (P := fun _ node _ sheets => ∀ path,
      path ∈ sheets ↔ scope.SheetAmong (scope.references node) path)
    (Q := fun _ nodes _ sheets => ∀ path,
      path ∈ sheets ↔ scope.SheetAmong (scope.referencesOfAll nodes) path)
    (R := fun c _ sheets => ∀ path, path ∈ sheets ↔ scope.SheetWithin c path) scope
    ?text ?dynamic ?external ?element ?nil ?cons ?inlined
  case text => exact fun owner s path => iff_of_false List.not_mem_nil not_sheetAmong_nil
  case dynamic => exact fun owner ref path => iff_of_false List.not_mem_nil not_sheetAmong_nil
  case external =>
    intro owner e nodes c children sheets hc ih path
    rw [references_external hc, sheetAmong_singleton]
    exact ih path
  case element =>
    intro owner e nodes children sheets hnone ih path
    rw [references_element hnone]
    exact ih path
  case nil => exact fun owner path => iff_of_false List.not_mem_nil not_sheetAmong_nil
  case cons =>
    intro owner node rest first later sheets sheets' ih ihrest path
    rw [referencesOfAll, sheetAmong_append, List.mem_append, ih, ihrest]
  case inlined =>
    intro c children sheets ih path
    rw [sheetWithin_iff, List.mem_append, ih]

/-- The style sheets that a page gets from its tree are those of the components inlined in it. -/
theorem mem_sheets_page_iff
    (h : scope.expand stack owner (scope.tree c) = .ok (children, sheets)) :
    path ∈ sheets ↔ ∃ d, scope.Inlined c d ∧ scope.Styled d ∧ path = scope.styleSheetPath d := by
  rw [← sheetAmong_references_iff]
  exact (mem_sheets_iff scope).1 _ _ _ _ h path

end Sitewright.Html.Scope
