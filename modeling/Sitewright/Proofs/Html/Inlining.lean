import Sitewright.Proofs.Html.Documents
import Sitewright.Proofs.Style.Classes

/-!
# Inlined components and their own pages

The markup of a shared component is the same wherever it is inlined and on a page of its own. Both
come from one tree, in which the component's own style sheet defines every class that was made for
it; the style sheet is recorded where the component is inlined exactly when there is one.
-/

namespace Sitewright

theorem Mapping.overlay_overlay (m other : Mapping) :
    m.overlay (m.overlay other) = m.overlay other := by
  simp only [overlay, Table.overlay_overlay]

theorem Mapping.overlay_self (m : Mapping) : m.overlay m = m := by
  simp only [overlay, Table.overlay_self]

namespace Html

open Outcome Style

variable {c : Component} {options own : Options} {compiled : Compiled} {stack : List String}
  {children : List Markup.Child} {sheets : List String} {fileName : String}
  {styles : List ClassStyle} {html : Markup.Element}

/-- Merging the mapping of a page once more changes nothing. -/
theorem scopeFor_merged (options : Options) :
    scopeFor (scopeFor options).options = scopeFor options := by
  have hmapping : Generator.htmlComponent.mappingFor (scopeFor options).options =
      Generator.htmlComponent.mappingFor options := by
    show Generator.htmlComponent.mapping.overlay (Generator.htmlComponent.mappingFor options) = _
    rw [Generator.mappingFor]
    cases options.mapping with
    | some extra => exact Mapping.overlay_overlay _ _
    | none => exact Mapping.overlay_self _
  rw [scopeFor, hmapping]
  rfl

/-- A component that is inlined anywhere has the markup of its own page. Every class made for its
elements is defined by its own style sheet, which is recorded exactly when it exists. -/
theorem inline_agrees (hown : own = options ∨ own = (scopeFor options).options)
    (hc : c ∈ options.externals.values)
    (hinline : (scopeFor options).inline stack c hc = .ok (children, sheets))
    (hgenerate : Generator.htmlComponent.generate c own = .ok compiled) :
    ∃ draft tags tree styles nested,
      runPlugins Generator.htmlComponent.plugins (Generator.htmlComponent.start c own) =
        .ok draft ∧
      Generator.htmlComponent.linkFiles draft.chunks c.fileName = .ok compiled.files ∧
      draft.chunks.get? .html "html-template" =
        some (documentChunk "html-template" (document (headOf tags) children)) ∧
      extractStyles ((scopeFor options).mapping.resolveTree c.node) = (tree, styles) ∧
      Classed ((scopeFor options).mapping.resolveTree c.node).elements tree.elements styles ∧
      (scopeFor options).expand (stack ++ [c.name]) c tree = .ok (children, nested) ∧
      draft.chunks.get? .css "style" = (if styles.isEmpty then none
        else some (Chunk.ofText "style" .css (sheetText (styles.map ClassStyle.rule)))) ∧
      ((∃ file ∈ compiled.files, file.extension = some "css") ↔
        (draft.chunks.get? .css "style").isSome = true) ∧
      sheets = (if (draft.chunks.get? .css "style").isSome then
        [(scopeFor options).styleSheetPath c] else []) ++ nested := by
  have hscope : scopeFor own = scopeFor options := by
    rcases hown with rfl | rfl
    · rfl
    · exact scopeFor_merged options
  have hfree : c.name ∉ stack := by
    intro hopen
    rw [Scope.inline_of_mem hc hopen] at hinline
    cases hinline
  rw [Scope.inline_of_notMem hc hfree] at hinline
  obtain ⟨⟨_, nested⟩, hexpand, heq⟩ := map_ok_iff.1 hinline
  obtain ⟨rfl, rfl⟩ := Prod.mk.inj heq
  obtain ⟨children', sheets', draft, tags, hpage, hdraft, hchunks, hfiles, hmem⟩ :=
    exists_page hgenerate
  rw [hscope] at hpage hchunks hmem
  -- the page expands the same tree, from another stack and with the tree as its owner's node
  obtain ⟨rfl, rfl⟩ := Prod.mk.inj ((Scope.expand_unique (scopeFor options)).1 [c.name]
    ((scopeFor options).styled c) _ _ hpage (stack ++ [c.name]) c _ rfl hexpand)
  have hstyle : draft.chunks.get? .css "style" = if ((scopeFor options).styles c).isEmpty then none
      else some (Chunk.ofText "style" .css
        (sheetText (((scopeFor options).styles c).map ClassStyle.rule))) := by
    rw [hchunks, get?_style]
  have hsome : (draft.chunks.get? .css "style").isSome = true ↔ (scopeFor options).styles c ≠ [] := by
    rw [hstyle]
    cases (scopeFor options).styles c with
    | nil => simp
    | cons s styles => simp
  refine ⟨draft, tags, _, _, sheets', hdraft, hfiles, ?_, rfl, classed_extract [] _, hexpand, hstyle,
    ?_, ?_⟩
  · rw [hchunks, get?_document]
  · rw [hsome]
    constructor
    · rintro ⟨file, hfile, hext⟩
      rcases (hmem file).1 hfile with rfl | ⟨hstyles, -⟩
      · exact absurd (Option.some.inj hext) (by decide)
      · exact hstyles
    · intro hstyles
      exact ⟨_, (hmem _).2 (.inr ⟨hstyles, rfl⟩), rfl⟩
  · refine congrArg (· ++ sheets') ?_
    by_cases hstyles : (scopeFor options).styles c = []
    · rw [Scope.ownSheets, if_pos (List.isEmpty_iff.2 hstyles), if_neg fun h => hsome.1 h hstyles]
    · rw [Scope.ownSheets, if_neg fun h => hstyles (List.isEmpty_iff.1 h),
        if_pos (hsome.2 hstyles)]

def badge : Component where
  name := "Badge"
  node := .element { kind := "container", style := Table.empty.insert "color" "red" } [.text "new"]

def badgeOptions : Options where
  externals := Table.empty.insert "Badge" badge

theorem mem_values_badge : badge ∈ badgeOptions.externals.values :=
  Table.mem_values_of_get? (show badgeOptions.externals.get? "Badge" = some badge from rfl)

theorem expand_badge (stack : List String) (owner : Component) : ∃ children,
    (scopeFor badgeOptions).expand stack owner ((scopeFor badgeOptions).tree badge) =
      .ok (children, []) := by
  obtain ⟨e, htree, hnone⟩ : ∃ e : Ui.Element,
      (scopeFor badgeOptions).tree badge = .element e [.text "new"] ∧
      (scopeFor badgeOptions).external? e = none := ⟨_, rfl, rfl⟩
  refine ⟨[.element e.kind ((scopeFor badgeOptions).attributes owner e) [.text "new"]], ?_⟩
  rw [htree, Scope.expand_element hnone, Scope.expandAll, Scope.expand, Scope.expandAll]
  rfl

/-- The badge is inlined in a page, and has a page of its own. -/
theorem inline_agrees_badge : ∃ (children : List Markup.Child) (compiled : Compiled)
    (draft : Draft) (tags : List Markup.Element),
    (scopeFor badgeOptions).inline ["Page"] badge mem_values_badge =
      .ok (children, [(scopeFor badgeOptions).styleSheetPath badge]) ∧
    Generator.htmlComponent.generate badge badgeOptions = .ok compiled ∧
    Generator.htmlComponent.linkFiles draft.chunks badge.fileName = .ok compiled.files ∧
    draft.chunks.get? .html "html-template" =
      some (documentChunk "html-template" (document (headOf tags) children)) ∧
    (draft.chunks.get? .css "style").isSome = true := by
  obtain ⟨children, hexpand⟩ := expand_badge (["Page"] ++ [badge.name]) badge
  have hinline : (scopeFor badgeOptions).inline ["Page"] badge mem_values_badge =
      .ok (children, [(scopeFor badgeOptions).styleSheetPath badge]) := by
    rw [Scope.inline_of_notMem mem_values_badge (by decide), hexpand]
    rfl
  obtain ⟨_, hpage⟩ := expand_badge [badge.name] ((scopeFor badgeOptions).styled badge)
  have hvalid : badgeOptions.validate = .ok () := rfl
  obtain ⟨compiled, hcompiled⟩ := generate_of_expandPage hvalid hpage
  obtain ⟨draft, tags, tree, styles, nested, -, hfiles, hdocument, htree, -, -, hstyle, -⟩ :=
    inline_agrees (.inl rfl) mem_values_badge hinline hcompiled
  have hstyles : styles.isEmpty = false := congrArg (·.2.isEmpty) htree.symm
  refine ⟨children, compiled, draft, tags, hinline, hcompiled, hfiles, hdocument, ?_⟩
  rw [hstyle, hstyles]
  rfl

end Html

end Sitewright
