import Sitewright.Proofs.Html.Documents
import Sitewright.Proofs.React.Modules

/-!
# Faults of the generators that come with the library

The plugins of a generator fit together: a chunk that one of them asks for has been made by another,
every link leads to a chunk, and every content is one that its file takes. What can still go wrong
lies in the component and the options.
-/

namespace Sitewright.Generator

open Outcome Html React Style

variable {c : Component} {options : Options} {compiled : Compiled} {f : Fault}

inductive PageFault : Fault → Prop
  | options (reason : String) : PageFault (.invalidStrategy reason)
  | plugin (reason : String) : PageFault (.pluginFailed "html-template" reason)

inductive SheetFault (formatter : String) : Fault → Prop
  | options (reason : String) : SheetFault formatter (.invalidStrategy reason)
  | formatting (reason : String) : SheetFault formatter (.postProcessorFailed formatter reason)

/-- The style sheet of the project, formatted by any formatter. -/
def projectStyleSheetWith (formatter : PostProcessor) : Generator where
  plugins := [Style.projectSheet]
  postProcessors := [formatter, normalizeWhitespace]

theorem projectStyleSheetWith_formatCss : projectStyleSheetWith formatCss = projectStyleSheet := rfl

theorem plugins_reactComponent :
    reactComponent.plugins = [componentSheet, component] ++ [importStatements] := rfl

theorem plugins_reactRouter : reactRouter.plugins = [router] ++ [importStatements] := rfl

theorem completes_reactComponent (c : Component) (options : Options) :
    reactComponent.Completes c options :=
  completes_module rfl (by decide) plugins_reactComponent fun _ => runPlugins_component_ok

theorem completes_reactRouter (c : Component) (options : Options) :
    reactRouter.Completes c options :=
  completes_module rfl (by decide) plugins_reactRouter fun _ => runPlugins_router_ok

theorem completes_entryFile (c : Component) (options : Options) :
    entryFile.Completes c options := by
  intro draft hdraft
  obtain rfl := Except.ok.inj hdraft
  exact ⟨_, _, rfl, rfl⟩

theorem generate_component_error (h : reactComponent.generate c options = .error f) :
    ModuleFault "jsx-component" f :=
  generate_module_error rfl (by decide) plugins_reactComponent
    (fun _ => runPlugins_component_ok) (fun _ => runPlugins_component_error) h

theorem generate_router_error (h : reactRouter.generate c options = .error f) :
    ModuleFault "router" f :=
  generate_module_error rfl (by decide) plugins_reactRouter
    (fun _ => runPlugins_router_ok) (fun _ => runPlugins_router_error) h

theorem generate_html_error (h : htmlComponent.generate c options = .error f) : PageFault f := by
  rcases generate_page_error h with ⟨reason, rfl⟩ | h
  · exact .options reason
  · obtain ⟨names, name, rfl⟩ := (Scope.expand_error _).1 _ _ _ _ h
    exact .plugin _

theorem linkAll_projectSheet (text : String) :
    (ChunkStore.mk [Chunk.ofText "project-style" .css text]).linkAll = .ok [(.css, text)] := by
  have htypes : (ChunkStore.mk [Chunk.ofText "project-style" .css text]).fileTypes = [.css] := rfl
  have htype : (ChunkStore.mk [Chunk.ofText "project-style" .css text]).ofType .css =
    [Chunk.ofText "project-style" .css text] := rfl
  have horder : LinkOrder.resolve .css [("project-style", [])] = .ok [0] := by decide
  have hlink : (ChunkStore.mk [Chunk.ofText "project-style" .css text]).link .css = .ok text := by
    rw [ChunkStore.link_of_resolve htype horder (by simp [Chunk.ofText, Content.representation,
      FileType.accepts])]
    simp [Chunk.ofText, Chunk.emits, Content.render]
  rw [ChunkStore.linkAll, htypes]
  simp [hlink, Except.map, bind, Except.bind, pure, Except.pure]

def projectSheetText (c : Component) (options : Options) : String :=
  sheetText (projectRules (projectStyleSheet.start c options))

def formatted (formatter : PostProcessor) (c : Component) (options : Options) :
    Outcome (Table String) :=
  formatter.process (Table.ofList [("css", projectSheetText c options)])

theorem linkFiles_projectSheet (formatter : PostProcessor) (text fileName : String) :
    (projectStyleSheetWith formatter).linkFiles ⟨[Chunk.ofText "project-style" .css text]⟩ fileName =
      (formatter.process (Table.ofList [("css", text)])).map fun outputs =>
        outputFiles fileName ["css"] (outputs.map normalizeText) := by
  rw [linkFiles, linkAll_projectSheet]
  show runPostProcessors [formatter, normalizeWhitespace] (Table.ofList [("css", text)]) >>= _ = _
  rw [runPostProcessors, List.foldlM_cons]
  cases formatter.process (Table.ofList [("css", text)]) with
  | error f => rfl
  | ok outputs => rfl

/-- The style sheet of a project is made whenever the options are valid and the formatter takes
it. -/
theorem generate_projectStyleSheet (formatter : PostProcessor) (c : Component)
    (options : Options) : (projectStyleSheetWith formatter).generate c options =
      options.validate >>= fun _ => (formatted formatter c options).map fun outputs =>
        { files := outputFiles c.fileName ["css"] (outputs.map normalizeText), versions := ∅ } := by
  refine congrArg (options.validate >>= ·) (funext fun _ => ?_)
  show (projectStyleSheetWith formatter).linkFiles
    ⟨[Chunk.ofText "project-style" .css (projectSheetText c options)]⟩ c.fileName >>= _ = _
  rw [linkFiles_projectSheet, formatted]
  cases formatter.process (Table.ofList [("css", projectSheetText c options)]) with
  | error f => rfl
  | ok outputs => rfl

theorem generate_projectStyleSheet_error {formatter : PostProcessor} (hf : formatter.FailsAsItself)
    (h : (projectStyleSheetWith formatter).generate c options = .error f) :
    SheetFault formatter.name f := by
  rw [generate_projectStyleSheet] at h
  rcases bind_error_iff.1 h with h | ⟨_, -, h⟩
  · obtain ⟨reason, rfl⟩ := Options.validate_error h
    exact .options reason
  · obtain ⟨reason, rfl⟩ := hf _ _ (map_error_iff.1 h)
    exact .formatting reason

theorem generate_entryFile_error (h : entryFile.generate c options = .error f) :
    ∃ reason, f = .invalidStrategy reason := by
  rcases (completes_entryFile c options).generate_error h with h | h
  · exact h
  · cases h

theorem mem_extension_iff {files : List File} {name extension text sheet : String} {p : Prop}
    (hcss : extension ≠ "css") (hmem : ∀ file, file ∈ files ↔
      file = File.ofParts name extension text ∨ (p ∧ file = File.ofParts name "css" sheet))
    (file : File) : file ∈ files ∧ file.extension = some extension ↔
      file = File.ofParts name extension text := by
  rw [hmem]
  constructor
  · rintro ⟨rfl | ⟨-, rfl⟩, hext⟩
    · rfl
    · exact absurd (Option.some.inj hext).symm hcss
  · rintro rfl
    exact ⟨.inl rfl, rfl⟩

/-- The library's generators fail for reasons of the component and the options only: once their
plugins are through, nothing fails but the formatter of style sheets. A module declares its imports
before its statements, and a page begins with its document type. -/
theorem generate_faults (c : Component) (options : Options) :
    (∀ f, reactComponent.generate c options = .error f → ModuleFault "jsx-component" f) ∧
    (∀ f, reactRouter.generate c options = .error f → ModuleFault "router" f) ∧
    (∀ f, htmlComponent.generate c options = .error f → PageFault f) ∧
    (∀ f, projectStyleSheet.generate c options = .error f → SheetFault "css-format" f) ∧
    (∀ formatter : PostProcessor, formatter.FailsAsItself → ∀ f,
      (projectStyleSheetWith formatter).generate c options = .error f →
        SheetFault formatter.name f) ∧
    (∀ f, entryFile.generate c options = .error f → ∃ reason, f = .invalidStrategy reason) ∧
    (∀ g ∈ [reactComponent, reactRouter, htmlComponent, entryFile],
      (∃ compiled, g.generate c options = .ok compiled) ↔ options.validate = .ok () ∧
        ∃ draft, runPlugins g.plugins (g.start c options) = .ok draft) ∧
    (∀ formatter, (∃ compiled, (projectStyleSheetWith formatter).generate c options = .ok compiled) ↔
      options.validate = .ok () ∧ ∃ outputs, formatted formatter c options = .ok outputs) ∧
    (∀ compiled, reactComponent.generate c options = .ok compiled →
      ∃ draft imports styles body text,
        runPlugins reactComponent.plugins (reactComponent.start c options) = .ok draft ∧
        draft.allImports = .ok imports ∧ MadeFrom c options styles body ∧
        IsModule imports body text ∧ ∀ file, file ∈ compiled.files ∧ file.extension = some "js" ↔
          file = File.ofParts c.fileName "js" text) ∧
    (∀ compiled, reactRouter.generate c options = .ok compiled →
      ∃ draft imports text,
        runPlugins reactRouter.plugins (reactRouter.start c options) = .ok draft ∧
        draft.allImports = .ok imports ∧ IsModule imports (application options.routes) text ∧
        ∀ file, file ∈ compiled.files ↔ file = File.ofParts c.fileName "js" text) ∧
    ∀ compiled, htmlComponent.generate c options = .ok compiled →
      ∃ text, beginsWith "<!DOCTYPE html>" text = true ∧
        ∀ file, file ∈ compiled.files ∧ file.extension = some "html" ↔
          file = File.ofParts c.fileName "html" text := by
  refine ⟨fun f => generate_component_error, fun f => generate_router_error,
    fun f => generate_html_error, fun f h => generate_projectStyleSheet_error formatCss_failsAsItself
      (by rwa [projectStyleSheetWith_formatCss]),
    fun formatter hf f => generate_projectStyleSheet_error hf, fun f => generate_entryFile_error,
    fun g hg => ?_, fun formatter => ?_, fun compiled h => ?_, fun compiled h => ?_,
    fun compiled h => ?_⟩
  · have hcompletes : g.Completes c options := by
      simp only [List.mem_cons, List.not_mem_nil, or_false] at hg
      rcases hg with rfl | rfl | rfl | rfl
      · exact completes_reactComponent c options
      · exact completes_reactRouter c options
      · exact completes_html c options
      · exact completes_entryFile c options
    exact hcompletes.exists_generate_ok_iff
  · rw [generate_projectStyleSheet]
    constructor
    · rintro ⟨compiled, h⟩
      obtain ⟨_, hvalid, h⟩ := bind_ok_iff.1 h
      obtain ⟨outputs, houtputs, -⟩ := map_ok_iff.1 h
      exact ⟨hvalid, outputs, houtputs⟩
    · rintro ⟨hvalid, outputs, houtputs⟩
      exact ⟨_, bind_ok_iff.2 ⟨(), hvalid, map_ok_iff.2 ⟨outputs, houtputs, rfl⟩⟩⟩
  · obtain ⟨draft, imports, text, styles, body, hdraft, himports, hmade, hmodule, hmem⟩ :=
      generate_module_ok rfl (by decide) plugins_reactComponent
        (fun _ => runPlugins_component_ok) h
    exact ⟨draft, imports, styles, body, text, hdraft, himports, hmade, hmodule,
      mem_extension_iff (by decide) hmem⟩
  · obtain ⟨draft, imports, text, styles, body, hdraft, himports, ⟨rfl, rfl⟩, hmodule, hmem⟩ :=
      generate_module_ok rfl (by decide) plugins_reactRouter (fun _ => runPlugins_router_ok) h
    refine ⟨draft, imports, text, hdraft, himports, hmodule, fun file => (hmem file).trans ?_⟩
    simp
  · obtain ⟨children, sheets, draft, tags, -, -, -, -, hmem⟩ := exists_page h
    exact ⟨_, beginsWith_doctype _, mem_extension_iff (by decide) hmem⟩

/-- A component with a style set whose name is none that a class can have. -/
def card : Component where
  name := "Card"
  node := .element { kind := "container" } [.text "hi"]
  styleSets := Table.empty.insert "2x" (Table.empty.insert "color" "red")

theorem generate_faults_card :
    (∃ f, reactRouter.generate card {} = .error f ∧ ModuleFault "router" f) ∧
    (formatCss.FailsAsItself ∧ ∃ f, (projectStyleSheetWith formatCss).generate card {} = .error f ∧
      SheetFault "css-format" f) ∧
    ∃ compiled imports styles body text, reactComponent.generate card {} = .ok compiled ∧
      MadeFrom card {} styles body ∧ IsModule imports body text ∧
      File.ofParts "card" "js" text ∈ compiled.files := by
  obtain ⟨-, hrouter, -, -, hformatter, -, -, -, hcomponent, -⟩ := generate_faults card {}
  have hnoRoutes : reactRouter.generate card {} =
    .error (.pluginFailed "router" "the project defines no routes") := rfl
  have hrefused : (projectStyleSheetWith formatCss).generate card {} =
      .error (.postProcessorFailed "css-format" "invalid style sheet") := by
    have hsheet : format? (projectSheetText card {}) = none := by decide +kernel
    have hget : (Table.ofList [("css", projectSheetText card {})]).get? "css" =
        some (projectSheetText card {}) := rfl
    have hformatted : formatted formatCss card {} =
        .error (.postProcessorFailed "css-format" "invalid style sheet") := by
      simp only [formatted, formatCss, hget, hsheet]
    rw [generate_projectStyleSheet, hformatted]
    rfl
  obtain ⟨compiled, hcard⟩ : ∃ compiled, reactComponent.generate card {} = .ok compiled :=
    ⟨_, rfl⟩
  obtain ⟨-, imports, styles, body, text, -, -, hmade, hmodule, hfiles⟩ := hcomponent _ hcard
  exact ⟨⟨_, hnoRoutes, hrouter _ hnoRoutes⟩, ⟨formatCss_failsAsItself, _, hrefused,
    hformatter formatCss formatCss_failsAsItself _ hrefused⟩, compiled, imports, styles, body, text,
    hcard, hmade, hmodule, ((hfiles _).2 rfl).1⟩

end Sitewright.Generator
