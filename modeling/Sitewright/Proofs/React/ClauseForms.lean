import Sitewright.Proofs.React.Modules

/-!
# Forms of import declarations

The language has six forms of import declaration, none of which binds a namespace beside a list of
names. The declarations of a draft take one of these forms unless records of one kind import one
module both as a namespace and by name: such records are declared together, in a form that is none.
-/

namespace Sitewright

/-- The forms of an import declaration. -/
inductive Script.ImportClause.Legal : Script.ImportClause → Prop
  | sideEffect : Legal {}
  | default (x : String) : Legal { default := some x }
  | namespaceName (x : String) : Legal { namespaceName := some x }
  | named {named : List Script.NamedImport} (hne : named ≠ []) : Legal { named }
  | defaultNamespace (x y : String) : Legal { default := some x, namespaceName := some y }
  | defaultNamed (x : String) {named : List Script.NamedImport} (hne : named ≠ []) :
      Legal { default := some x, named }

theorem Script.ImportClause.legal_iff {c : Script.ImportClause} :
    c.Legal ↔ c.namespaceName = none ∨ c.named = [] := by
  constructor
  · intro h
    cases h with
    | sideEffect => exact .inl rfl
    | default x => exact .inl rfl
    | namespaceName x => exact .inr rfl
    | named hne => exact .inl rfl
    | defaultNamespace x y => exact .inr rfl
    | defaultNamed x hne => exact .inl rfl
  · obtain ⟨default, namespaceName, named⟩ := c
    rintro (hnone | hnone)
    · obtain rfl : namespaceName = none := hnone
      by_cases hne : named = []
      · subst hne
        cases default with
        | none => exact .sideEffect
        | some x => exact .default x
      · cases default with
        | none => exact .named hne
        | some x => exact .defaultNamed x hne
    · obtain rfl : named = [] := hnone
      cases namespaceName with
      | none =>
        cases default with
        | none => exact .sideEffect
        | some x => exact .default x
      | some y =>
        cases default with
        | none => exact .namespaceName y
        | some x => exact .defaultNamespace x y

/-- Records of one kind import one module both as a namespace and by name. -/
def Imports.Mixed (imports : Imports) (kind : DependencyKind) (source : String) : Prop :=
  (∃ x d, imports.get? x = some d ∧ d.IsFrom kind source .namespaceImport) ∧
    ∃ x d, imports.get? x = some d ∧ d.IsFrom kind source .named

namespace React

open Outcome
open Script (ImportClause)

variable {kind : DependencyKind} {source : String} {clause : ImportClause} {imports : Imports}
  {declared : List (String × ImportClause)} {draft result : Draft}

theorem Declares.namespaceName_isSome_iff (h : Declares kind imports declared)
    (hmem : (source, clause) ∈ declared) : clause.namespaceName ≠ none ↔
      ∃ x d, imports.get? x = some d ∧ d.IsFrom kind source .namespaceImport := by
  rw [Option.ne_none_iff_exists']
  exact exists_congr fun x => h.namespace_iff source clause hmem x

theorem Declares.named_ne_nil_iff (h : Declares kind imports declared)
    (hmem : (source, clause) ∈ declared) : clause.named ≠ [] ↔
      ∃ x d, imports.get? x = some d ∧ d.IsFrom kind source .named := by
  constructor
  · intro hne
    obtain ⟨n, hn⟩ := List.exists_mem_of_ne_nil _ hne
    obtain ⟨d, hd, hfrom, -⟩ := (h.named_iff source clause hmem n).1 hn
    exact ⟨n.binding, d, hd, hfrom⟩
  · rintro ⟨x, d, hd, hfrom⟩
    have hn := (h.named_iff source clause hmem ⟨d.exportedName.getD x, x⟩).2 ⟨d, hd, hfrom, rfl⟩
    exact List.ne_nil_of_mem hn

theorem Declares.not_legal_iff (h : Declares kind imports declared)
    (hmem : (source, clause) ∈ declared) : ¬ clause.Legal ↔ imports.Mixed kind source := by
  rw [ImportClause.legal_iff, not_or, Imports.Mixed]
  exact and_congr (h.namespaceName_isSome_iff hmem) (h.named_ne_nil_iff hmem)

theorem Declares.exists_of_mixed (h : Declares kind imports declared)
    (hmixed : imports.Mixed kind source) : ∃ clause, (source, clause) ∈ declared := by
  obtain ⟨⟨x, d, hd, hfrom⟩, -⟩ := hmixed
  obtain ⟨⟨s, clause⟩, hmem, rfl⟩ :=
    List.mem_map.1 ((h.mem_sources_iff source).2 ⟨x, d, hd, hfrom.kind, hfrom.source⟩)
  exact ⟨clause, hmem⟩

/-- The declarations that a draft's import chunks hold are legal except where a module is imported
both as a namespace and by name. -/
theorem declarations_legal_iff_not_mixed (h : importStatements.run draft = .ok result) :
    ∃ imports, ∃ declared : DependencyKind → List (String × ImportClause),
      draft.allImports = .ok imports ∧
      (∀ kind, ∃ chunk, result.chunks.get? .js (importChunk kind) = some chunk ∧
        chunk.content = .code (.program ((declared kind).map fun e => .importing e.1 e.2))) ∧
      (∀ kind source clause, (source, clause) ∈ declared kind →
        (clause.Legal ↔ ¬ imports.Mixed kind source)) ∧
      ((∀ kind source clause, (source, clause) ∈ declared kind → clause.Legal) ↔
        ∀ kind source, ¬ imports.Mixed kind source) := by
  obtain ⟨imports, declared, himports, hdeclares, rfl⟩ := run_importStatements_ok h
  have hlegal : ∀ kind source clause, (source, clause) ∈ declared kind →
      (clause.Legal ↔ ¬ imports.Mixed kind source) := fun kind source clause hmem => by
    rw [← (hdeclares kind).not_legal_iff hmem, not_not]
  refine ⟨imports, declared, himports, fun kind => ?_, hlegal, ?_⟩
  · exact ⟨_, get?_withImportChunks _ kind, content_declarationsChunk _ _⟩
  · constructor
    · intro hall kind source hmixed
      obtain ⟨clause, hmem⟩ := (hdeclares kind).exists_of_mixed hmixed
      exact (hlegal kind source clause hmem).1 (hall kind source clause hmem) hmixed
    · intro hnone kind source clause hmem
      exact (hlegal kind source clause hmem).2 (hnone kind source)

def iconsAndButton : Imports where
  records := (Table.empty.insert "Icons"
      { kind := .package, source := "ui-kit", importKind := .namespaceImport }).insert "Button"
    { kind := .package, source := "ui-kit", importKind := .named }

def iconsAndButtonDraft : Draft where
  component := default
  imports := iconsAndButton
  options := default

theorem mixed_iconsAndButton : iconsAndButton.Mixed .package "ui-kit" :=
  ⟨⟨"Icons", _, rfl, rfl, rfl, rfl⟩, "Button", _, rfl, rfl, rfl, rfl⟩

theorem declarations_legal_iff_not_mixed_iconsAndButton :
    ∃ result imports, ∃ declared : DependencyKind → List (String × ImportClause),
      importStatements.run iconsAndButtonDraft = .ok result ∧
      iconsAndButtonDraft.allImports = .ok imports ∧ imports.Mixed .package "ui-kit" ∧
      ¬ ∀ kind source clause, (source, clause) ∈ declared kind → clause.Legal := by
  obtain ⟨result, hresult⟩ : ∃ result, importStatements.run iconsAndButtonDraft = .ok result :=
    ⟨_, rfl⟩
  obtain ⟨imports, declared, himports, -, -, hall⟩ := declarations_legal_iff_not_mixed hresult
  have hown : iconsAndButtonDraft.allImports = .ok iconsAndButton := rfl
  obtain rfl := Except.ok.inj (hown.symm.trans himports)
  exact ⟨result, iconsAndButton, declared, hresult, hown, mixed_iconsAndButton,
    fun h => hall.1 h .package "ui-kit" mixed_iconsAndButton⟩

/-- The package is declared in a form that the language does not have. -/
theorem namespace_beside_names : ∃ result chunk clause,
    importStatements.run iconsAndButtonDraft = .ok result ∧
    result.chunks.get? .js "import-pack" = some chunk ∧
    chunk.content = .code (.program [.importing "ui-kit" clause]) ∧ ¬ clause.Legal ∧
    chunk.content.render = "import * as Icons, \x7b Button \x7d from 'ui-kit'" := by
  refine ⟨_, _, { namespaceName := some "Icons", named := [⟨"Button", "Button"⟩] }, rfl, rfl, rfl,
    ?_, ?_⟩
  · simp [ImportClause.legal_iff]
  · decide

end React

end Sitewright
