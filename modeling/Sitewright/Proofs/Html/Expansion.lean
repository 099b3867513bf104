import Sitewright.Html.Inline
import Sitewright.Proofs.Outcome

/-!
# Expanding component trees

What each case of an expansion comes to, and induction along the cases: over everything that an
expansion may come to, and over its results only. The markup of a tree depends on the component that
owns it through its states only, and on the stack of open names not at all, except that an open name
is a fault. No other fault comes up.
-/

namespace Sitewright.Html.Scope

open Outcome

variable {scope : Scope} {stack stack' : List String} {owner owner' c : Component}
  {e : Ui.Element} {nodes : List Ui.Node}

/-- The mapped tree of a shared component, its styled elements with their classes. -/
def tree (scope : Scope) (c : Component) : Ui.Node :=
  (Style.extractStyles (scope.mapping.resolveTree c.node)).1

def styles (scope : Scope) (c : Component) : List Style.ClassStyle :=
  (Style.extractStyles (scope.mapping.resolveTree c.node)).2

def ownSheets (scope : Scope) (c : Component) : List String :=
  if (scope.styles c).isEmpty then [] else [scope.styleSheetPath c]

theorem expand_external (h : scope.external? e = some c) :
    scope.expand stack owner (.element e nodes) =
      scope.inline stack c (mem_values_of_external? h) := by
  rw [expand]
  split
  · next c' h' =>
    obtain rfl := Option.some.inj (h.symm.trans h')
    rfl
  · next h' => cases h.symm.trans h'

theorem expand_element (h : scope.external? e = none) :
    scope.expand stack owner (.element e nodes) =
      (scope.expandAll stack owner nodes).map fun r =>
        ([.element e.kind (scope.attributes owner e) r.1], r.2) := by
  rw [expand]
  split
  · next c h' => cases h.symm.trans h'
  · cases scope.expandAll stack owner nodes <;> rfl

theorem expandAll_cons (scope : Scope) (stack : List String) (owner : Component) (node : Ui.Node)
    (rest : List Ui.Node) : scope.expandAll stack owner (node :: rest) =
      scope.expand stack owner node >>= fun r => scope.expandAll stack owner rest >>= fun r' =>
        pure (r.1 ++ r'.1, r.2 ++ r'.2) := by
  rw [expandAll]

theorem inline_of_mem (hc : c ∈ scope.options.externals.values) (h : c.name ∈ stack) :
    scope.inline stack c hc = .error (selfInclusion stack c.name) := by
  rw [inline, dif_pos (List.contains_iff_mem.2 h)]

theorem inline_of_notMem (hc : c ∈ scope.options.externals.values) (h : c.name ∉ stack) :
    scope.inline stack c hc = (scope.expand (stack ++ [c.name]) c (scope.tree c)).map fun r =>
      (r.1, scope.ownSheets c ++ r.2) := by
  rw [inline, dif_neg (by simpa using h)]
  show (scope.expand (stack ++ [c.name]) c (scope.tree c) >>= _) = _
  cases scope.expand (stack ++ [c.name]) c (scope.tree c) <;> rfl

theorem attributes_congr (h : owner.states = owner'.states) (e : Ui.Element) :
    scope.attributes owner e = scope.attributes owner' e := by
  have hvalue : staticValue? owner = staticValue? owner' := by
    funext r
    simp only [staticValue?, h]
  simp only [attributes, attributeValue?, hvalue]

/-! ## Induction along an expansion -/

section Induction

variable {P : List String → Component → Ui.Node → Outcome (List Markup.Child × List String) → Prop}
  {Q : List String → Component → List Ui.Node →
    Outcome (List Markup.Child × List String) → Prop}
  {R : List String → Component → Outcome (List Markup.Child × List String) → Prop}

/-- What holds of an expansion, from what holds of the parts: `P` of a node, `Q` of the children of
an element and `R` of a shared component. -/
theorem expand_induction (scope : Scope)
    (text : ∀ stack owner s, P stack owner (.text s) (.ok ([.text s], [])))
    (dynamic : ∀ stack owner r,
      P stack owner (.dynamic r) (.ok ((staticValue? owner r).toList.map .text, [])))
    (external : ∀ stack owner e nodes c result, scope.external? e = some c → R stack c result →
      P stack owner (.element e nodes) result)
    (element : ∀ stack owner e nodes result, scope.external? e = none →
      Q stack owner nodes result → P stack owner (.element e nodes) (result.map fun r =>
        ([.element e.kind (scope.attributes owner e) r.1], r.2)))
    (nil : ∀ stack owner, Q stack owner [] (.ok ([], [])))
    (cons : ∀ stack owner node rest first later, P stack owner node first →
      Q stack owner rest later → Q stack owner (node :: rest)
        (first >>= fun r => later >>= fun r' => pure (r.1 ++ r'.1, r.2 ++ r'.2)))
    (again : ∀ stack c, c.name ∈ stack → R stack c (.error (selfInclusion stack c.name)))
    (inlined : ∀ stack c result, c.name ∉ stack →
      P (stack ++ [c.name]) c (scope.tree c) result →
        R stack c (result.map fun r => (r.1, scope.ownSheets c ++ r.2))) :
    (∀ stack owner node, P stack owner node (scope.expand stack owner node)) ∧
      (∀ stack owner nodes, Q stack owner nodes (scope.expandAll stack owner nodes)) ∧
      ∀ stack c hc, R stack c (scope.inline stack c hc) := by
  apply expand.mutual_induct
  case case1 =>
    intro stack owner s
    rw [expand]
    exact text stack owner s
  case case2 =>
    intro stack owner r
    rw [expand]
    exact dynamic stack owner r
  case case3 =>
    intro stack owner e nodes c hc ih
    rw [expand_external hc]
    exact external stack owner e nodes c _ hc ih
  case case4 =>
    intro stack owner e nodes hnone ih
    rw [expand_element hnone]
    exact element stack owner e nodes _ hnone ih
  case case5 =>
    intro stack owner
    rw [expandAll]
    exact nil stack owner
  case case6 =>
    intro stack owner node rest ih ihrest
    rw [expandAll_cons]
    exact cons stack owner node rest _ _ ih ihrest
  case case7 =>
    intro stack c hc hopen
    have hopen : c.name ∈ stack := List.contains_iff_mem.1 hopen
    rw [inline_of_mem hc hopen]
    exact again stack c hopen
  case case8 =>
    intro stack c hc hfree tree styles htree ih
    have hfree : c.name ∉ stack := by simpa using hfree
    obtain rfl : scope.tree c = tree := congrArg Prod.fst htree
    rw [inline_of_notMem hc hfree]
    exact inlined stack c _ hfree ih

variable {P : Component → Ui.Node → List Markup.Child → List String → Prop}
  {Q : Component → List Ui.Node → List Markup.Child → List String → Prop}
  {R : Component → List Markup.Child → List String → Prop}

/-- What holds of the markup and the style sheets that an expansion results in. -/
theorem expand_ok_induction (scope : Scope)
    (text : ∀ owner s, P owner (.text s) [.text s] [])
    (dynamic : ∀ owner r, P owner (.dynamic r) ((staticValue? owner r).toList.map .text) [])
    (external : ∀ owner e nodes c children sheets, scope.external? e = some c →
      R c children sheets → P owner (.element e nodes) children sheets)
    (element : ∀ owner e nodes children sheets, scope.external? e = none →
      Q owner nodes children sheets → P owner (.element e nodes)
        [.element e.kind (scope.attributes owner e) children] sheets)
    (nil : ∀ owner, Q owner [] [] [])
    (cons : ∀ owner node rest first later sheets sheets', P owner node first sheets →
      Q owner rest later sheets' → Q owner (node :: rest) (first ++ later) (sheets ++ sheets'))
    (inlined : ∀ c children sheets, P c (scope.tree c) children sheets →
      R c children (scope.ownSheets c ++ sheets)) :
    (∀ stack owner node r, scope.expand stack owner node = .ok r → P owner node r.1 r.2) ∧
      (∀ stack owner nodes r, scope.expandAll stack owner nodes = .ok r →
        Q owner nodes r.1 r.2) ∧
      ∀ stack c hc r, scope.inline stack c hc = .ok r → R c r.1 r.2 := by
  refine expand_induction (P := fun _ owner node result => ∀ r, result = .ok r →
    P owner node r.1 r.2) (Q := fun _ owner nodes result => ∀ r, result = .ok r →
    Q owner nodes r.1 r.2) (R := fun _ c result => ∀ r, result = .ok r → R c r.1 r.2) scope
    ?text ?dynamic ?external ?element ?nil ?cons ?again ?inlined
  case text =>
    rintro stack owner s r ⟨⟩
    exact text owner s
  case dynamic =>
    rintro stack owner ref r ⟨⟩
    exact dynamic owner ref
  case external =>
    intro stack owner e nodes c result hc ih r h
    exact external owner e nodes c r.1 r.2 hc (ih r h)
  case element =>
    intro stack owner e nodes result hnone ih r h
    obtain ⟨below, hbelow, rfl⟩ := map_ok_iff.1 h
    exact element owner e nodes _ _ hnone (ih below hbelow)
  case nil =>
    rintro stack owner r ⟨⟩
    exact nil owner
  case cons =>
    intro stack owner node rest first later ih ihrest r h
    obtain ⟨children, hfirst, h⟩ := bind_ok_iff.1 h
    obtain ⟨children', hlater, h⟩ := bind_ok_iff.1 h
    obtain rfl := Except.ok.inj h
    exact cons owner node rest _ _ _ _ (ih children hfirst) (ihrest children' hlater)
  case again =>
    rintro stack c hopen r ⟨⟩
  case inlined =>
    intro stack c result hfree ih r h
    obtain ⟨below, hbelow, rfl⟩ := map_ok_iff.1 h
    exact inlined c _ _ (ih below hbelow)

end Induction

/-! ## Results and faults -/

/-- Two expansions of a tree that come to a result come to the same one. -/
theorem expand_unique (scope : Scope) :
    (∀ stack owner node r, scope.expand stack owner node = .ok r → ∀ stack' owner' r',
      owner.states = owner'.states → scope.expand stack' owner' node = .ok r' → r = r') ∧
    (∀ stack owner nodes r, scope.expandAll stack owner nodes = .ok r → ∀ stack' owner' r',
      owner.states = owner'.states → scope.expandAll stack' owner' nodes = .ok r' → r = r') ∧
    ∀ stack c hc r, scope.inline stack c hc = .ok r → ∀ stack' hc' r',
      scope.inline stack' c hc' = .ok r' → r = r' := by
  refine expand_ok_induction (P := fun owner node children sheets => ∀ stack' owner' r',
    owner.states = owner'.states → scope.expand stack' owner' node = .ok r' →
      (children, sheets) = r') (Q := fun owner nodes children sheets => ∀ stack' owner' r',
    owner.states = owner'.states → scope.expandAll stack' owner' nodes = .ok r' →
      (children, sheets) = r') (R := fun c children sheets => ∀ stack' hc' r',
    scope.inline stack' c hc' = .ok r' → (children, sheets) = r') scope
    ?text ?dynamic ?external ?element ?nil ?cons ?inlined
  case text =>
    intro owner s stack' owner' r' _ h'
    rw [expand] at h'
    exact Except.ok.inj h'
  case dynamic =>
    intro owner ref stack' owner' r' hstates h'
    have hvalue : staticValue? owner ref = staticValue? owner' ref := by
      simp only [staticValue?, hstates]
    rw [expand, ← hvalue] at h'
    exact Except.ok.inj h'
  case external =>
    intro owner e nodes c children sheets hc ih stack' owner' r' _ h'
    rw [expand_external hc] at h'
    exact ih stack' _ r' h'
  case element =>
    intro owner e nodes children sheets hnone ih stack' owner' r' hstates h'
    rw [expand_element hnone] at h'
    obtain ⟨below', hbelow', rfl⟩ := map_ok_iff.1 h'
    obtain rfl := ih stack' owner' below' hstates hbelow'
    rw [attributes_congr hstates]
  case nil =>
    intro owner stack' owner' r' _ h'
    rw [expandAll] at h'
    exact Except.ok.inj h'
  case cons =>
    intro owner node rest first later sheets sheets' ih ihrest stack' owner' r' hstates h'
    rw [expandAll_cons] at h'
    obtain ⟨first', hfirst', h'⟩ := bind_ok_iff.1 h'
    obtain ⟨later', hlater', h'⟩ := bind_ok_iff.1 h'
    obtain rfl := ih stack' owner' first' hstates hfirst'
    obtain rfl := ihrest stack' owner' later' hstates hlater'
    exact Except.ok.inj h'
  case inlined =>
    intro c children sheets ih stack' hc' r' h'
    by_cases hopen : c.name ∈ stack'
    · rw [inline_of_mem hc' hopen] at h'
      cases h'
    · rw [inline_of_notMem hc' hopen] at h'
      obtain ⟨below', hbelow', rfl⟩ := map_ok_iff.1 h'
      obtain rfl := ih _ c below' rfl hbelow'
      rfl

/-- The only fault of an expansion is a component that comes up while it is being inlined. -/
theorem expand_error (scope : Scope) :
    (∀ stack owner node f, scope.expand stack owner node = .error f →
      ∃ names name, f = selfInclusion names name) ∧
    (∀ stack owner nodes f, scope.expandAll stack owner nodes = .error f →
      ∃ names name, f = selfInclusion names name) ∧
    ∀ stack c hc f, scope.inline stack c hc = .error f →
      ∃ names name, f = selfInclusion names name := by
  let Includes (result : Outcome (List Markup.Child × List String)) : Prop :=
    ∀ f, result = .error f → ∃ names name, f = selfInclusion names name
  refine expand_induction (P := fun _ _ _ => Includes) (Q := fun _ _ _ => Includes)
    (R := fun _ _ => Includes) scope ?text ?dynamic ?external ?element ?nil ?cons ?again ?inlined
  case text => rintro stack owner s f ⟨⟩
  case dynamic => rintro stack owner ref f ⟨⟩
  case external => exact fun stack owner e nodes c result _ ih => ih
  case element => exact fun stack owner e nodes result _ ih f h => ih f (map_error_iff.1 h)
  case nil => rintro stack owner f ⟨⟩
  case cons =>
    intro stack owner node rest first later ih ihrest f h
    rcases bind_error_iff.1 h with h | ⟨children, -, h⟩
    · exact ih f h
    · rcases bind_error_iff.1 h with h | ⟨children', -, h⟩
      · exact ihrest f h
      · cases h
  case again => exact fun stack c _ f h => ⟨stack, c.name, (Except.error.inj h).symm⟩
  case inlined => exact fun stack c result _ ih f h => ih f (map_error_iff.1 h)

end Sitewright.Html.Scope
