import Sitewright.Proofs.Dependency.Merging
import Sitewright.Proofs.Html.Expansion
import Sitewright.Proofs.Style.Sheets
import Sitewright.Proofs.Text.Lines

/-!
# Documents of components

The generation of a page fails with its options or with the expansion of its tree and with nothing
else: the document chunk is there when the head is put into it, all imports are style sheets under
their own paths, and the chunks link in the order in which they stand.
-/

namespace Sitewright.Html

open Outcome Style

variable {c : Component} {options : Options} {compiled : Compiled} {d draft : Draft} {f : Fault}
  {fileName : String} {styles : List ClassStyle} {html : Markup.Element} {imports : Imports}
  {head children : List Markup.Child} {sheets : List String}

def scopeFor (options : Options) : Scope where
  mapping := Generator.htmlComponent.mappingFor options
  options := { options with mapping := some (Generator.htmlComponent.mappingFor options) }

def Scope.styled (scope : Scope) (c : Component) : Component := { c with node := scope.tree c }

def Scope.expandPage (scope : Scope) (c : Component) : Outcome (List Markup.Child × List String) :=
  scope.expand [c.name] (scope.styled c) (scope.tree c)

def document (head children : List Markup.Child) : Markup.Element where
  tag := "html"
  children := head ++ [.element "body" [] children]

/-- The head that some tags make; none if there are no tags. -/
def headOf (tags : List Markup.Element) : List Markup.Child :=
  if tags.isEmpty then [] else [.element "head" [] (tags.map (·.toChild))]

def pageStore (fileName : String) (styles : List ClassStyle) (html : Markup.Element) : ChunkStore :=
  ⟨sheetChunks fileName styles ++ [doctype, documentChunk "html-template" html]⟩

theorem key_documentChunk (name : String) (html : Markup.Element) :
    ChunkStore.key (documentChunk name html) = (.html, name) := rfl

theorem fileType_of_mem_document {chunk : Chunk}
    (h : chunk ∈ [doctype, documentChunk "html-template" html]) : chunk.fileType = .html := by
  rcases List.mem_pair.1 h with rfl | rfl
  · rfl
  · rfl

theorem addAll_sheetChunks :
    (ChunkStore.mk (sheetChunks fileName styles)).addAll
      [doctype, documentChunk "html-template" html] = pageStore fileName styles html := by
  have hkeys : [(FileType.html, "doctype"), (.html, "html-template")].Nodup := by decide
  refine ChunkStore.addAll_of_nodup (nodup_key_sheetChunks_append hkeys fun chunk hchunk => ?_)
  rw [fileType_of_mem_document hchunk]
  decide

theorem get?_document : (pageStore fileName styles html).get? .html "html-template" =
    some (documentChunk "html-template" html) := by
  have hnone : (sheetChunks fileName styles).find? (·.isAt .html "html-template") = none := by
    rw [List.find?_eq_none]
    intro chunk hchunk hat
    have hkey : (FileType.html, "html-template") ∉
        (sheetChunks fileName styles).map ChunkStore.key := key_notMem_sheetChunks (by decide)
    exact hkey (ChunkStore.isAt_iff.1 hat ▸ List.mem_map_of_mem hchunk)
  rw [ChunkStore.get?, pageStore, List.find?_append, hnone]
  rfl

theorem pageStore_inj {other : Markup.Element}
    (h : pageStore fileName styles html = pageStore fileName styles other) : html = other := by
  have hchunk := congrArg (ChunkStore.get? · .html "html-template") h
  rw [get?_document, get?_document] at hchunk
  exact Content.markup.inj (congrArg Chunk.content (Option.some.inj hchunk))

theorem get?_style : (pageStore fileName styles html).get? .css "style" =
    if styles.isEmpty then none
    else some (Chunk.ofText "style" .css (sheetText (styles.map ClassStyle.rule))) := by
  rw [ChunkStore.get?, pageStore, sheetChunks]
  cases styles with
  | nil => rfl
  | cons s styles => rfl

theorem require_pageStore (plugin : String) :
    (pageStore fileName styles html).require plugin .html "html-template" =
      .ok (documentChunk "html-template" html) := by
  rw [ChunkStore.require, get?_document]

/-- A document takes the place of the one before it. -/
theorem addAll_pageStore (after : Markup.Element) :
    (pageStore fileName styles html).addAll [documentChunk "html-template" after] =
      pageStore fileName styles after := by
  have hfront : ChunkStore.key (documentChunk "html-template" after) ∉
      (sheetChunks fileName styles ++ [doctype]).map ChunkStore.key := by
    rw [key_documentChunk, List.map_append, List.mem_append]
    exact not_or.2 ⟨key_notMem_sheetChunks (by decide), by decide⟩
  -- no chunk before the document has its key, and none stands after it
  have hplace := ChunkStore.placeChunk_of_mem [] hfront
    (key_documentChunk "html-template" html)
  rw [List.append_assoc, List.append_assoc] at hplace
  exact congrArg ChunkStore.mk hplace

theorem dependencies_pageStore : (pageStore fileName styles html).dependencies =
    (sheetChunks fileName styles).flatMap (·.dependencies) := by
  rw [ChunkStore.dependencies, pageStore, List.flatMap_append]
  exact List.append_nil _

theorem allImports_pageStore (hchunks : d.chunks = pageStore fileName styles html)
    (h : d.imports.SelfNamed) : ∃ imports, d.allImports = .ok imports := by
  have hrecords : ∀ r ∈ d.chunks.dependencies, r.2.source = r.1 := by
    intro r hr
    rw [hchunks, dependencies_pageStore] at hr
    exact dependencies_sheetChunks hr
  obtain ⟨imports, himports, -⟩ := h.mergeAll hrecords
  exact ⟨imports, himports⟩

theorem body_eq (d : Draft) : body d =
    ((Scope.mk d.mapping d.options).expand [d.component.name] d.component d.component.node).map
      fun r => ({ tag := "body", children := r.1 }, r.2) := by
  rw [body]
  cases (Scope.mk d.mapping d.options).expand [d.component.name] d.component d.component.node with
  | error f => rfl
  | ok r => rfl

theorem run_template_of_error (h : body d = .error f) : template.run d = .error f := by
  simp only [template, h]
  rfl

theorem run_template (hchunks : d.chunks = ⟨sheetChunks fileName styles⟩)
    (hnamed : d.imports.SelfNamed) (h : body d = .ok ({ tag := "body", children }, sheets)) :
    ∃ imports, imports.SelfNamed ∧ template.run d = .ok
      { d with chunks := pageStore fileName styles (document [] children), imports } := by
  have hrecords : ∀ r ∈ sheets.map sheetRecord, r.2.source = r.1 :=
    fun r hr => source_of_mem_sheetRecords hr
  obtain ⟨imports, himports, himportsNamed⟩ := Draft.importAll_selfNamed hnamed hrecords
  refine ⟨imports, himportsNamed, ?_⟩
  have himported : d.importAll (sheets.map fun path =>
      (path, (Dependency.localPath path).sideEffect)) = .ok { d with imports } := himports
  simp only [template, h, bind, Except.bind, himported]
  rw [Draft.addChunks, hchunks, addAll_sheetChunks]
  rfl

theorem imports_template {next : Draft} (hbody : body d = .ok (html, sheets))
    (h : template.run d = .ok next) :
    d.imports.mergeAll (sheets.map sheetRecord) = .ok next.imports := by
  obtain ⟨_, hbody', h⟩ := bind_ok_iff.1 h
  obtain rfl := Except.ok.inj (hbody.symm.trans hbody')
  obtain ⟨_, himported, h⟩ := bind_ok_iff.1 h
  obtain ⟨imports, himports, rfl⟩ := map_ok_iff.1 himported
  obtain rfl := Except.ok.inj h
  exact himports

theorem run_head (hchunks : d.chunks = pageStore fileName styles (document [] children))
    (himports : d.allImports = .ok imports) : Html.head.run d = .ok { d with
      chunks := pageStore fileName styles (document (headOf (headTags d imports)) children) } := by
  have hmarkup (change : Markup.Element → Markup.Element) :
      (documentChunk "html-template" (document [] children)).mapMarkup change =
        .ok (documentChunk "html-template" (change (document [] children))) := rfl
  have hhead : (if (headTags d imports).isEmpty then document [] children else
      (document [] children).prepend (.element "head" [] ((headTags d imports).map (·.toChild)))) =
      document (headOf (headTags d imports)) children := by
    rw [headOf]
    split
    · rfl
    · rfl
  simp only [Html.head, himports, hchunks, require_pageStore, hmarkup, bind, Except.bind]
  rw [Draft.addChunks, hchunks, addAll_pageStore, ← hhead]
  rfl

def pageRecords (d : Draft) (sheets : List String) : List (String × Dependency) :=
  d.options.globalStyleSheet?.toList ++
    (sheets.map sheetRecord ++
      (sheetChunks d.component.fileName (extractStyles d.component.node).2).flatMap
        (·.dependencies))

/-- A draft without chunks becomes a page if its tree expands. -/
theorem runPlugins_page (hchunks : d.chunks = {}) (himports : d.imports.SelfNamed)
    (h : (Scope.mk d.mapping d.options).expand [d.component.name]
      { d.component with node := (extractStyles d.component.node).1 }
      (extractStyles d.component.node).1 = .ok (children, sheets)) :
    ∃ draft imports, runPlugins Generator.htmlComponent.plugins d = .ok draft ∧
      draft.chunks = pageStore d.component.fileName (extractStyles d.component.node).2
        (document (headOf (headTags d imports)) children) ∧
      draft.allImports = .ok imports ∧ d.imports.mergeAll (pageRecords d sheets) = .ok imports := by
  obtain ⟨imports₁, hnamed₁, hsheet⟩ := run_componentSheet hchunks himports
  let d₁ : Draft := { d with
    component := { d.component with node := (extractStyles d.component.node).1 }
    chunks := ⟨sheetChunks d.component.fileName (extractStyles d.component.node).2⟩
    imports := imports₁ }
  have hbody : body d₁ = .ok ({ tag := "body", children }, sheets) := by
    rw [body_eq]
    exact map_ok_iff.2 ⟨(children, sheets), h, rfl⟩
  obtain ⟨imports₂, hnamed₂, htemplate⟩ := run_template (d := d₁) rfl hnamed₁ hbody
  let d₂ : Draft := { d₁ with
    chunks := pageStore d.component.fileName (extractStyles d.component.node).2
      (document [] children)
    imports := imports₂ }
  obtain ⟨imports, hall⟩ := allImports_pageStore (d := d₂) rfl hnamed₂
  let d₃ : Draft := { d₂ with
    chunks := pageStore d.component.fileName (extractStyles d.component.node).2
      (document (headOf (headTags d₂ imports)) children) }
  -- the head changes the document, but not what the chunks depend on
  have hown : imports₂.mergeAll (pageStore d.component.fileName
      (extractStyles d.component.node).2 (document [] children)).dependencies = .ok imports := hall
  rw [dependencies_pageStore] at hown
  have hall₃ : d₃.allImports = .ok imports := by
    rw [Draft.allImports, dependencies_pageStore]
    exact hown
  refine ⟨d₃, imports, ?_, rfl, hall₃, ?_⟩
  · rw [Generator.htmlComponent, runPlugins_cons, hsheet]
    show runPlugins [template, Html.head] d₁ = _
    rw [runPlugins_cons, htemplate]
    show runPlugins [Html.head] d₂ = _
    rw [runPlugins_cons, run_head (d := d₂) rfl hall]
    rfl
  · have hglobal : d.imports.mergeAll d.options.globalStyleSheet?.toList = .ok imports₁ :=
      imports_componentSheet hsheet
    have hinlined : imports₁.mergeAll (sheets.map sheetRecord) = .ok imports₂ :=
      imports_template hbody htemplate
    rw [pageRecords, Imports.mergeAll_append_of_ok hglobal,
      Imports.mergeAll_append_of_ok hinlined, hown]

theorem runPlugins_page_of_error (hchunks : d.chunks = {}) (himports : d.imports.SelfNamed)
    (h : (Scope.mk d.mapping d.options).expand [d.component.name]
      { d.component with node := (extractStyles d.component.node).1 }
      (extractStyles d.component.node).1 = .error f) :
    runPlugins Generator.htmlComponent.plugins d = .error f := by
  obtain ⟨imports, -, hsheet⟩ := run_componentSheet hchunks himports
  let d₁ : Draft := { d with
    component := { d.component with node := (extractStyles d.component.node).1 }
    chunks := ⟨sheetChunks d.component.fileName (extractStyles d.component.node).2⟩
    imports }
  have hbody : body d₁ = .error f := by
    rw [body_eq]
    exact map_error_iff.2 h
  rw [Generator.htmlComponent, runPlugins_cons, hsheet]
  show runPlugins [template, Html.head] d₁ = _
  rw [runPlugins_cons, run_template_of_error hbody]
  rfl

theorem link_pageStore : (pageStore fileName styles html).link .html =
    .ok ("<!DOCTYPE html>\n" ++ html.toHtml) := by
  have htype : (pageStore fileName styles html).ofType .html =
      [doctype, documentChunk "html-template" html] := ofType_sheetChunks_append (by decide)
  have horder : LinkOrder.resolve .html [("doctype", []), ("html-template", ["doctype"])] =
    .ok [0, 1] := by decide
  rw [ChunkStore.link_of_resolve htype horder (by simp [doctype, documentChunk, Chunk.ofText,
    Chunk.ofMarkup, Chunk.after, Content.representation, FileType.accepts])]
  rfl

theorem beginsWith_doctype (text : String) :
    beginsWith "<!DOCTYPE html>" (normalizeText ("<!DOCTYPE html>\n" ++ text)) = true := by
  have hline : "<!DOCTYPE html>\n" = "<!DOCTYPE html>" ++ "\n" := rfl
  rw [hline]
  exact beginsWith_normalizeText (by decide) (by decide) (by decide) text

/-- A page is one document, and one style sheet if an element has a style. -/
theorem linkFiles_pageStore (fileName : String) (styles : List ClassStyle) (html : Markup.Element)
    (name : String) : ∃ files,
    Generator.htmlComponent.linkFiles (pageStore fileName styles html) name = .ok files ∧
    ∀ file, file ∈ files ↔
      file = File.ofParts name "html" (normalizeText ("<!DOCTYPE html>\n" ++ html.toHtml)) ∨
      (styles ≠ [] ∧ file = File.ofParts name "css"
        (normalizeText (sheetText (styles.map ClassStyle.rule)))) := by
  exact linkFiles_sheetChunks rfl (by decide) (fun _ => fileType_of_mem_document)
    ⟨doctype, List.mem_cons_self, rfl⟩ link_pageStore name

theorem exists_draft_page (h : (scopeFor options).expandPage c = .ok (children, sheets)) :
    ∃ draft tags, runPlugins Generator.htmlComponent.plugins
        (Generator.htmlComponent.start c options) = .ok draft ∧
      draft.chunks = pageStore c.fileName ((scopeFor options).styles c)
        (document (headOf tags) children) ∧
      ∃ imports, draft.allImports = .ok imports := by
  obtain ⟨draft, imports, hdraft, hchunks, himports, -⟩ :=
    runPlugins_page (d := Generator.htmlComponent.start c options) rfl Imports.selfNamed_empty h
  exact ⟨draft, _, hdraft, hchunks, imports, himports⟩

theorem runPlugins_of_expandPage_error (h : (scopeFor options).expandPage c = .error f) :
    runPlugins Generator.htmlComponent.plugins (Generator.htmlComponent.start c options) =
      .error f :=
  runPlugins_page_of_error rfl Imports.selfNamed_empty h

theorem completes_html (c : Component) (options : Options) :
    Generator.htmlComponent.Completes c options := by
  intro draft hdraft
  rcases exists_ok_or_error ((scopeFor options).expandPage c) with ⟨⟨children, sheets⟩, h⟩ | ⟨f, h⟩
  · obtain ⟨draft', tags, hdraft', hchunks, imports, himports⟩ := exists_draft_page h
    obtain rfl := Except.ok.inj (hdraft.symm.trans hdraft')
    obtain ⟨files, hfiles, -⟩ := linkFiles_pageStore c.fileName ((scopeFor options).styles c)
      (document (headOf tags) children) c.fileName
    exact ⟨imports, files, himports, hchunks ▸ hfiles⟩
  · rw [runPlugins_of_expandPage_error h] at hdraft
    cases hdraft

/-- A page is made whenever its options are valid and its tree expands. -/
theorem generate_of_expandPage (hvalid : options.validate = .ok ())
    (h : (scopeFor options).expandPage c = .ok (children, sheets)) :
    ∃ compiled, Generator.htmlComponent.generate c options = .ok compiled := by
  obtain ⟨draft, -, hdraft, -⟩ := exists_draft_page h
  exact (completes_html c options).exists_generate_ok_iff.2 ⟨hvalid, draft, hdraft⟩

theorem generate_page_error (h : Generator.htmlComponent.generate c options = .error f) :
    (∃ reason, f = .invalidStrategy reason) ∨ (scopeFor options).expandPage c = .error f := by
  rcases (completes_html c options).generate_error h with h | h
  · exact .inl h
  · refine .inr ?_
    rcases exists_ok_or_error ((scopeFor options).expandPage c) with ⟨_, hok⟩ | ⟨e, he⟩
    · obtain ⟨draft, -, hdraft, -⟩ := exists_draft_page hok
      rw [hdraft] at h
      cases h
    · rw [runPlugins_of_expandPage_error he] at h
      rw [he, Except.error.inj h]

/-- What the generation of a page comes to. -/
theorem exists_page (h : Generator.htmlComponent.generate c options = .ok compiled) :
    ∃ children sheets draft tags, (scopeFor options).expandPage c = .ok (children, sheets) ∧
      runPlugins Generator.htmlComponent.plugins (Generator.htmlComponent.start c options) =
        .ok draft ∧
      draft.chunks = pageStore c.fileName ((scopeFor options).styles c)
        (document (headOf tags) children) ∧
      Generator.htmlComponent.linkFiles draft.chunks c.fileName = .ok compiled.files ∧
      ∀ file, file ∈ compiled.files ↔
        file = File.ofParts c.fileName "html"
          (normalizeText ("<!DOCTYPE html>\n" ++ (document (headOf tags) children).toHtml)) ∨
        ((scopeFor options).styles c ≠ [] ∧ file = File.ofParts c.fileName "css"
          (normalizeText (sheetText (((scopeFor options).styles c).map ClassStyle.rule)))) := by
  obtain ⟨-, draft, imports, files, hdraft, himports, hfiles, rfl⟩ := Generator.generate_ok_iff.1 h
  rcases exists_ok_or_error ((scopeFor options).expandPage c) with
    ⟨⟨children, sheets⟩, hok⟩ | ⟨e, he⟩
  · obtain ⟨draft', tags, hdraft', hchunks, -⟩ := exists_draft_page hok
    obtain rfl := Except.ok.inj (hdraft.symm.trans hdraft')
    obtain ⟨files', hfiles', hmem⟩ := linkFiles_pageStore c.fileName
      ((scopeFor options).styles c) (document (headOf tags) children) c.fileName
    obtain rfl := Except.ok.inj (hfiles.symm.trans (hchunks ▸ hfiles'))
    exact ⟨children, sheets, draft, tags, hok, hdraft, hchunks, hfiles, hmem⟩
  · rw [runPlugins_of_expandPage_error he] at hdraft
    cases hdraft

end Sitewright.Html
