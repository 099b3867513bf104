import Sitewright.Proofs.Html.SelfInclusion

/-!
# Texts of inlined pages

What a page says is fixed by the trees of its components before any of them is inlined: their texts
and the states they refer to, in the order of the trees, with the texts of a shared component
wherever it is referred to. A state is that of the component in whose own tree the reference stands,
so states of one name in components inside each other do not get mixed up. The body of a page holds
these texts in this order, and besides them nothing but elements.
-/

namespace Sitewright

mutual
def Markup.Child.leaves : Markup.Child → List Markup.Child
  | .element _ _ children => Markup.leavesOfAll children
  | .text s => [.text s]
  | .raw markup => [.raw markup]
  | .expression s => [.expression s]

def Markup.leavesOfAll : List Markup.Child → List Markup.Child
  | [] => []
  | child :: rest => child.leaves ++ Markup.leavesOfAll rest
end

theorem Markup.leavesOfAll_append (before after : List Markup.Child) :
    Markup.leavesOfAll (before ++ after) =
      Markup.leavesOfAll before ++ Markup.leavesOfAll after := by
  induction before with
  | nil => rfl
  | cons child rest ih =>
    rw [List.cons_append, Markup.leavesOfAll, Markup.leavesOfAll, ih, List.append_assoc]

namespace Html

open Outcome

def shownValue : Json → String
  | .string s => s
  | value => value.compact

variable {scope : Scope} {stack : List String} {owner c : Component} {e : Ui.Element}
  {node : Ui.Node} {nodes : List Ui.Node} {texts texts' : List String}
  {children : List Markup.Child} {sheets : List String} {d next : Draft}

namespace Scope

/-- The texts of nodes in the tree of the component `owner`. A reference to a shared component has
the texts of that component's own tree, whatever is below the reference. -/
inductive TextsOf (scope : Scope) : Component → List Ui.Node → List String → Prop
  | nil {owner : Component} : TextsOf scope owner [] []
  | text {owner : Component} {s : String} {rest : List Ui.Node} {later : List String}
      (hrest : TextsOf scope owner rest later) :
      TextsOf scope owner (.text s :: rest) (s :: later)
  | state {owner : Component} {r : Ui.Reference} {state : StateDefinition} {rest : List Ui.Node}
      {later : List String} (hkind : r.kind = .state) (hstate : owner.states.get? r.id = some state)
      (hrest : TextsOf scope owner rest later) :
      TextsOf scope owner (.dynamic r :: rest) (shownValue state.defaultValue.value :: later)
  | unknown {owner : Component} {r : Ui.Reference} {rest : List Ui.Node} {later : List String}
      (hunknown : r.kind ≠ .state ∨ owner.states.get? r.id = none)
      (hrest : TextsOf scope owner rest later) :
      TextsOf scope owner (.dynamic r :: rest) later
  | reference {owner c : Component} {e : Ui.Element} {below rest : List Ui.Node}
      {first later : List String} (hc : scope.options.externals.get? e.kind = some c)
      (htree : TextsOf scope c [scope.mapping.resolveTree c.node] first)
      (hrest : TextsOf scope owner rest later) :
      TextsOf scope owner (.element e below :: rest) (first ++ later)
  | element {owner : Component} {e : Ui.Element} {below rest : List Ui.Node}
      {first later : List String} (hnone : scope.options.externals.get? e.kind = none)
      (hbelow : TextsOf scope owner below first) (hrest : TextsOf scope owner rest later) :
      TextsOf scope owner (.element e below :: rest) (first ++ later)

theorem TextsOf.append {nodes' : List Ui.Node} (h : scope.TextsOf owner nodes texts)
    (h' : scope.TextsOf owner nodes' texts') :
    scope.TextsOf owner (nodes ++ nodes') (texts ++ texts') := by
  induction h with
  | nil => exact h'
  | text _ ih => exact .text (ih h')
  | state hkind hstate _ ih => exact .state hkind hstate (ih h')
  | unknown hunknown _ ih => exact .unknown hunknown (ih h')
  | reference hc htree _ _ ih =>
    rw [List.append_assoc]
    exact .reference hc htree (ih h')
  | element hnone hbelow _ _ ih =>
    rw [List.append_assoc]
    exact .element hnone hbelow (ih h')

/-- The texts of a tree are determined by it and by its owner. -/
theorem TextsOf.unique (h : scope.TextsOf owner nodes texts)
    (h' : scope.TextsOf owner nodes texts') : texts = texts' := by
  induction h generalizing texts' with
  | nil =>
    cases h'
    rfl
  | text _ ih =>
    cases h' with
    | text hrest => rw [ih hrest]
  | state hkind hstate _ ih =>
    cases h' with
    | state _ hstate' hrest =>
      obtain rfl := Option.some.inj (hstate.symm.trans hstate')
      rw [ih hrest]
    | unknown hunknown _ =>
      rcases hunknown with hother | hnone
      · exact absurd hkind hother
      · cases hstate.symm.trans hnone
  | unknown hunknown _ ih =>
    cases h' with
    | state hkind hstate _ =>
      rcases hunknown with hother | hnone
      · exact absurd hkind hother
      · cases hstate.symm.trans hnone
    | unknown _ hrest => exact ih hrest
  | reference hc _ _ ihtree ih =>
    cases h' with
    | reference hc' htree hrest =>
      obtain rfl := Option.some.inj (hc.symm.trans hc')
      rw [ihtree htree, ih hrest]
    | element hnone _ _ => cases hc.symm.trans hnone
  | element hnone _ _ ihbelow ih =>
    cases h' with
    | reference hc _ _ => cases hc.symm.trans hnone
    | element _ hbelow hrest => rw [ihbelow hbelow, ih hrest]

/-! ### Extracted styles -/

theorem kind_extractElement (used : List String) (e : Ui.Element) :
    (Style.extractElement used e).1.kind = e.kind := by
  rw [Style.extractElement]
  split
  · rfl
  · rfl

/-- Classes for the styles of a tree change no text of it. -/
theorem TextsOf.of_extractAll : ∀ {nodes : List Ui.Node} {used : List String} {owner : Component}
    {texts : List String}, scope.TextsOf owner (Style.extractAll used nodes).1 texts →
      scope.TextsOf owner nodes texts
  | [], _, _, _, h => h
  | .text _ :: _, _, _, _, .text hrest => .text hrest.of_extractAll
  | .dynamic _ :: _, _, _, _, .state hkind hstate hrest => .state hkind hstate hrest.of_extractAll
  | .dynamic _ :: _, _, _, _, .unknown hunknown hrest => .unknown hunknown hrest.of_extractAll
  | .element e _ :: _, used, _, _, .reference hc htree hrest =>
    .reference (kind_extractElement used e ▸ hc) htree hrest.of_extractAll
  | .element e _ :: _, used, _, _, .element hnone hbelow hrest =>
    .element (kind_extractElement used e ▸ hnone) hbelow.of_extractAll hrest.of_extractAll

theorem TextsOf.of_tree (h : scope.TextsOf c [scope.tree c] texts) :
    scope.TextsOf c [scope.mapping.resolveTree c.node] texts := by
  have htree : [scope.tree c] = (Style.extractAll [] [scope.mapping.resolveTree c.node]).1 := rfl
  rw [htree] at h
  exact h.of_extractAll

/-! ### Expansion -/

theorem textsOf_dynamic (scope : Scope) (owner : Component) (r : Ui.Reference) :
    scope.TextsOf owner [.dynamic r] (staticValue? owner r).toList := by
  by_cases hkind : r.kind = .state
  · cases hstate : owner.states.get? r.id with
    | none =>
      rw [staticValue?, hkind, hstate]
      exact .unknown (.inr hstate) .nil
    | some state =>
      have hshown : staticValue? owner r = some (shownValue state.defaultValue.value) := by
        simp only [staticValue?, hkind, hstate, Option.map_some]
        cases state.defaultValue.value <;> rfl
      rw [hshown]
      exact .state hkind hstate .nil
  · have hnone : staticValue? owner r = none := by
      rw [staticValue?]
      split
      · exact absurd ‹_› hkind
      · rfl
    rw [hnone]
    exact .unknown (.inl hkind) .nil

/-- Markup holds texts and elements only, and its texts are those of nodes of a component. -/
def Holds (scope : Scope) (owner : Component) (nodes : List Ui.Node)
    (children : List Markup.Child) : Prop :=
  ∃ texts, Markup.leavesOfAll children = texts.map .text ∧ scope.TextsOf owner nodes texts

theorem Holds.text (scope : Scope) (owner : Component) (s : String) :
    scope.Holds owner [.text s] [.text s] :=
  ⟨[s], rfl, .text .nil⟩

theorem Holds.dynamic (scope : Scope) (owner : Component) (r : Ui.Reference) :
    scope.Holds owner [.dynamic r] ((staticValue? owner r).toList.map .text) := by
  refine ⟨_, ?_, scope.textsOf_dynamic owner r⟩
  cases staticValue? owner r with
  | none => rfl
  | some s => rfl

theorem Holds.external {children : List Markup.Child} (hc : scope.external? e = some c)
    (h : scope.Holds c [scope.mapping.resolveTree c.node] children) :
    scope.Holds owner [.element e nodes] children := by
  obtain ⟨texts, hleaves, htexts⟩ := h
  refine ⟨texts, hleaves, ?_⟩
  rw [← List.append_nil texts]
  exact .reference hc htexts .nil

theorem Holds.element {children : List Markup.Child} {attrs : List (String × Markup.Attr)}
    (hnone : scope.external? e = none) (h : scope.Holds owner nodes children) :
    scope.Holds owner [.element e nodes] [.element e.kind attrs children] := by
  obtain ⟨texts, hleaves, htexts⟩ := h
  refine ⟨texts ++ [], ?_, .element hnone htexts .nil⟩
  rw [Markup.leavesOfAll, Markup.Child.leaves, hleaves, Markup.leavesOfAll, List.append_nil,
    List.append_nil]

theorem Holds.append {nodes' : List Ui.Node} {children children' : List Markup.Child}
    (h : scope.Holds owner nodes children) (h' : scope.Holds owner nodes' children') :
    scope.Holds owner (nodes ++ nodes') (children ++ children') := by
  obtain ⟨texts, hleaves, htexts⟩ := h
  obtain ⟨texts', hleaves', htexts'⟩ := h'
  refine ⟨texts ++ texts', ?_, htexts.append htexts'⟩
  rw [Markup.leavesOfAll_append, hleaves, hleaves', List.map_append]

theorem Holds.of_tree {children : List Markup.Child}
    (h : scope.Holds c [scope.tree c] children) :
    scope.Holds c [scope.mapping.resolveTree c.node] children := by
  obtain ⟨texts, hleaves, htexts⟩ := h
  exact ⟨texts, hleaves, htexts.of_tree⟩

theorem holds_expand (scope : Scope) :
    (∀ stack owner node r, scope.expand stack owner node = .ok r →
      scope.Holds owner [node] r.1) ∧
    (∀ stack owner nodes r, scope.expandAll stack owner nodes = .ok r →
      scope.Holds owner nodes r.1) ∧
    ∀ stack c hc r, scope.inline stack c hc = .ok r →
      scope.Holds c [scope.mapping.resolveTree c.node] r.1 := by
  refine expand_ok_induction (P := fun owner node children _ => scope.Holds owner [node] children)
    (Q := fun owner nodes children _ => scope.Holds owner nodes children)
    (R := fun c children _ => scope.Holds c [scope.mapping.resolveTree c.node] children) scope
    ?text ?dynamic ?external ?element ?nil ?cons ?inlined
  case text => exact Holds.text scope
  case dynamic => exact Holds.dynamic scope
  case external => exact fun owner e nodes c children sheets hc ih => .external hc ih
  case element => exact fun owner e nodes children sheets hnone ih => .element hnone ih
  case nil => exact fun owner => ⟨[], rfl, .nil⟩
  case cons => exact fun owner node rest first later sheets sheets' ih ihrest => ih.append ihrest
  case inlined => exact fun c children sheets ih => ih.of_tree

end Scope

/-- A document that is made has the expansion of the draft's tree as its body. -/
theorem exists_document (h : template.run d = .ok next) : ∃ children sheets,
    (pageScope d).expand [d.component.name] d.component d.component.node = .ok (children, sheets) ∧
    next.chunks.get? .html "html-template" =
      some (documentChunk "html-template" (document [] children)) := by
  obtain ⟨⟨body, sheets⟩, hbody, hrest⟩ := bind_ok_iff.1 h
  obtain ⟨imported, -, hnext⟩ := bind_ok_iff.1 hrest
  obtain rfl := Except.ok.inj hnext
  rw [body_eq] at hbody
  obtain ⟨⟨children, sheets'⟩, hexpand, heq⟩ := map_ok_iff.1 hbody
  obtain ⟨rfl, rfl⟩ := Prod.mk.inj heq
  exact ⟨children, sheets', hexpand, ChunkStore.get?_add _ _ _ _⟩

/-- The body of a page has exactly the texts of the page's tree, in their order, each reference to a
shared component giving the texts of that component, and each state being that of the component in
whose tree it is referred to. -/
theorem page_texts_kept (h : template.run d = .ok next) : ∃ children texts,
    next.chunks.get? .html "html-template" =
      some (documentChunk "html-template" (document [] children)) ∧
    Markup.leavesOfAll children = texts.map .text ∧
    ∀ texts', (pageScope d).TextsOf d.component [d.component.node] texts' ↔ texts' = texts := by
  obtain ⟨children, sheets, hexpand, hdocument⟩ := exists_document h
  obtain ⟨texts, hleaves, htexts⟩ := (pageScope d).holds_expand.1 _ _ _ _ hexpand
  refine ⟨children, texts, hdocument, hleaves, fun texts' => ⟨fun h' => h'.unique htexts, ?_⟩⟩
  rintro rfl
  exact htexts

def labelState : Ui.Reference := ⟨.state, "label"⟩

def plaque : Component where
  name := "Plaque"
  node := .dynamic labelState
  states := Table.empty.insert "label" ⟨.ofJson (.string "inner") rfl⟩

def panel : Component where
  name := "Panel"
  node := .element { kind := "container" }
    [.dynamic labelState, .element { kind := "Plaque" } [.text "below a reference"],
      .dynamic ⟨.prop, "label"⟩, .dynamic labelState]
  states := Table.empty.insert "label" ⟨.ofJson (.bool true) rfl⟩

def panelPage : Draft where
  component :=
    { name := "Home"
      node := .element { kind := "main" }
        [.text "start", .element { kind := "Panel" } [], .dynamic labelState]
      states := Table.empty.insert "label" ⟨.ofJson (.string "outer") rfl⟩ }
  options := { externals := (Table.empty.insert "Panel" panel).insert "Plaque" plaque }

theorem expand_panelPage :
    (pageScope panelPage).expand ["Home"] panelPage.component panelPage.component.node =
      .ok ([.element "main" [] [.text "start",
        .element "container" [] [.text "true", .text "inner", .text "true"], .text "outer"]],
        []) := by
  have hmain : (pageScope panelPage).external? { kind := "main" } = none := rfl
  have hcontainer : (pageScope panelPage).external? { kind := "container" } = none := rfl
  have hpanel : (pageScope panelPage).external? { kind := "Panel" } = some panel := rfl
  have hplaque : (pageScope panelPage).external? { kind := "Plaque" } = some plaque := rfl
  have hpanelTree : (pageScope panelPage).tree panel = panel.node := rfl
  have hplaqueTree : (pageScope panelPage).tree plaque = plaque.node := rfl
  have hinner : (pageScope panelPage).inline ["Home", "Panel"] plaque
      (Scope.mem_values_of_external? hplaque) = .ok ([.text "inner"], []) := by
    rw [Scope.inline_of_notMem _ (by decide), hplaqueTree, plaque, Scope.expand]
    rfl
  have hmiddle : (pageScope panelPage).inline ["Home"] panel
      (Scope.mem_values_of_external? hpanel) = .ok ([.element "container" []
        [.text "true", .text "inner", .text "true"]], []) := by
    rw [Scope.inline_of_notMem _ (by decide), hpanelTree, panel, Scope.expand_element hcontainer]
    simp only [Scope.expandAll, Scope.expand, Scope.expand_external hplaque]
    have hstack : ["Home"] ++ ["Panel"] = ["Home", "Panel"] := rfl
    rw [hstack, hinner]
    rfl
  have hnode : panelPage.component.node = .element { kind := "main" }
    [.text "start", .element { kind := "Panel" } [], .dynamic labelState] := rfl
  rw [hnode, Scope.expand_element hmain]
  simp only [Scope.expandAll, Scope.expand, Scope.expand_external hpanel]
  rw [hmiddle]
  rfl

theorem textsOf_plaque : (pageScope panelPage).TextsOf plaque [plaque.node] ["inner"] := by
  have hlabel : plaque.states.get? "label" = some ⟨.ofJson (.string "inner") rfl⟩ := rfl
  exact .state (r := labelState) rfl hlabel .nil

theorem textsOf_panel :
    (pageScope panelPage).TextsOf panel [panel.node] ["true", "inner", "true"] := by
  have hlabel : panel.states.get? "label" = some ⟨.ofJson (.bool true) rfl⟩ := rfl
  have hprop : Ui.ReferenceKind.prop ≠ .state := by decide
  exact .element rfl (.state (r := labelState) rfl hlabel (.reference rfl textsOf_plaque
    (.unknown (.inl hprop) (.state (r := labelState) rfl hlabel .nil)))) .nil

theorem textsOf_panelPage : (pageScope panelPage).TextsOf panelPage.component
    [panelPage.component.node] ["start", "true", "inner", "true", "outer"] := by
  have hlabel : panelPage.component.states.get? "label" =
      some ⟨.ofJson (.string "outer") rfl⟩ := rfl
  exact .element rfl (.text (.reference rfl textsOf_panel
    (.state (r := labelState) rfl hlabel .nil))) .nil

theorem page_texts_kept_panel : ∃ next children, template.run panelPage = .ok next ∧
    next.chunks.get? .html "html-template" =
      some (documentChunk "html-template" (document [] children)) ∧
    Markup.leavesOfAll children =
      [.text "start", .text "true", .text "inner", .text "true", .text "outer"] := by
  obtain ⟨children, hbody⟩ : ∃ children,
      body panelPage = .ok ({ tag := "body", children }, []) := by
    rw [body_eq]
    exact ⟨_, map_ok_iff.2 ⟨_, expand_panelPage, rfl⟩⟩
  have hchunks : panelPage.chunks = ⟨Style.sheetChunks "home" []⟩ := rfl
  obtain ⟨imports, -, hrun⟩ := run_template hchunks Imports.selfNamed_empty hbody
  obtain ⟨children, texts, hdocument, hleaves, htexts⟩ := page_texts_kept hrun
  obtain rfl := (htexts _).1 textsOf_panelPage
  exact ⟨_, children, hrun, hdocument, hleaves⟩

end Html

end Sitewright
