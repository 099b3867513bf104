import Sitewright.Proofs.Generator.Stages
import Sitewright.Proofs.React.ImportChunks
import Sitewright.Proofs.Style.Sheets
import Sitewright.Proofs.Text.Lines
import Sitewright.React.Component

/-!
# Modules of components

A module is made from one script chunk that follows the three import chunks. In the text of the
module the import declarations therefore stand first, the hidden chunks leaving no trace, and the
statements of the component or of the router after them.
-/

namespace Sitewright.React

open Outcome Style
open Script (ImportClause)

variable {d draft : Draft} {f : Fault} {fileName name : String} {styles : List ClassStyle}
  {body : List Script.Node} {imports : Imports}
  {declared : DependencyKind → List (String × ImportClause)}

inductive ModuleFault (plugin : String) : Fault → Prop
  | options (reason : String) : ModuleFault plugin (.invalidStrategy reason)
  | plugin (reason : String) : ModuleFault plugin (.pluginFailed plugin reason)
  | ambiguous (identifier existing incoming : String) :
      ModuleFault plugin (.ambiguousDependency identifier existing incoming)
  | conflicting (source existing incoming : String) :
      ModuleFault plugin (.conflictingImport source existing incoming)

theorem mergeAll_moduleFault {imports : Imports} {records : List (String × Dependency)}
    {plugin : String} (h : imports.mergeAll records = .error f) : ModuleFault plugin f := by
  obtain ⟨identifier, existing, incoming, rfl⟩ := Imports.mergeAll_error h
  exact .ambiguous identifier existing incoming

theorem run_component_error (h : component.run d = .error f) : ModuleFault "jsx-component" f := by
  simp only [component] at h
  split at h
  · exact Except.error.inj h ▸ .plugin _
  · rcases bind_error_iff.1 h with h | ⟨_, -, h⟩
    · exact mergeAll_moduleFault (map_error_iff.1 h)
    · cases h

theorem run_component_ok (h : component.run d = .ok draft) : ∃ root imports,
    (markup d.mapping d.component.node).element? = some root ∧
    draft = { d with imports }.addChunks
      [scriptChunk "jsx-component" (moduleBody d.component root)] := by
  simp only [component] at h
  split at h
  · cases h
  · next root hroot =>
    obtain ⟨_, himports, h⟩ := bind_ok_iff.1 h
    obtain ⟨imports, -, rfl⟩ := map_ok_iff.1 himports
    exact ⟨root, imports, hroot, (Except.ok.inj h).symm⟩

theorem run_router_error (h : router.run d = .error f) : ModuleFault "router" f := by
  simp only [router] at h
  split at h
  · exact Except.error.inj h ▸ .plugin _
  · rcases bind_error_iff.1 h with h | ⟨_, -, h⟩
    · exact mergeAll_moduleFault (map_error_iff.1 h)
    · cases h

theorem run_router_ok (h : router.run d = .ok draft) : ∃ imports,
    draft = { d with imports }.addChunks [scriptChunk "router" (application d.options.routes)] := by
  simp only [router] at h
  split at h
  · cases h
  · obtain ⟨_, himports, h⟩ := bind_ok_iff.1 h
    obtain ⟨imports, -, rfl⟩ := map_ok_iff.1 himports
    exact ⟨imports, (Except.ok.inj h).symm⟩

theorem run_importStatements_error {plugin : String} (h : importStatements.run d = .error f) :
    ModuleFault plugin f := by
  rcases exists_ok_or_error d.allImports with ⟨imports, himports⟩ | ⟨e, he⟩
  · by_cases hfree : ∀ kind, (recordsOf kind imports).Pairwise (¬ Clash · ·)
    · rw [run_importStatements himports hfree] at h
      cases h
    · obtain ⟨source, existing, incoming, herror⟩ := run_importStatements_of_clash himports hfree
      rw [← Except.error.inj (herror.symm.trans h)]
      exact .conflicting source existing incoming
  · have hrun : importStatements.run d = .error e := by
      simp only [importStatements, he]
      rfl
    rw [← Except.error.inj (hrun.symm.trans h)]
    exact mergeAll_moduleFault he

theorem run_importStatements_ok (h : importStatements.run d = .ok draft) : ∃ imports declared,
    d.allImports = .ok imports ∧ (∀ kind, Declares kind imports (declared kind)) ∧
      draft = withImportChunks d declared := by
  rcases exists_ok_or_error d.allImports with ⟨imports, himports⟩ | ⟨e, he⟩
  · by_cases hfree : ∀ kind, (recordsOf kind imports).Pairwise (¬ Clash · ·)
    · rw [run_importStatements himports hfree] at h
      exact ⟨imports, _, himports, fun kind => declares_grouped (hfree kind),
        (Except.ok.inj h).symm⟩
    · obtain ⟨source, existing, incoming, herror⟩ := run_importStatements_of_clash himports hfree
      rw [herror] at h
      cases h
  · simp only [importStatements, he] at h
    cases h

/-! ## Texts -/

def moduleText (declared : List (String × ImportClause)) (body : List Script.Node) : String :=
  "\n".intercalate
    (declared.map (fun e => Script.importText e.1 e.2) ++ [(Script.Node.program body).text])

theorem write_importing (declared : List (String × ImportClause)) (hne : declared ≠ []) :
    Script.Node.writeAll 0 (declared.map fun e => .importing e.1 e.2) =
      "\n".intercalate (declared.map fun e => Script.importText e.1 e.2) ++ "\n" := by
  induction declared with
  | nil => exact absurd rfl hne
  | cons e rest ih =>
    rw [List.map_cons, Script.Node.writeAll, Script.Node.write, List.map_cons]
    have hindent : Markup.indentation 0 = "" := rfl
    by_cases hrest : rest = []
    · subst hrest
      simp [hindent, Script.Node.writeAll]
    · have hmap : (rest.map fun e => Script.importText e.1 e.2) ≠ [] := by simpa using hrest
      rw [ih hrest, String.intercalate_cons_of_ne_nil hmap, hindent]
      simp [String.append_assoc]

theorem importText_ends (source : String) (clause : ImportClause) :
    ∃ start, (Script.importText source clause).toList = start ++ ['\''] := by
  rw [Script.importText]
  split
  · exact ⟨("import '" ++ source).toList, String.toList_append⟩
  · exact ⟨("import " ++ ", ".intercalate clause.bindings ++ " from '" ++ source).toList,
      String.toList_append⟩

theorem importTexts_end (declared : List (String × ImportClause)) (hne : declared ≠ []) :
    ∃ start, ("\n".intercalate (declared.map fun e => Script.importText e.1 e.2)).toList =
      start ++ ['\''] := by
  induction declared with
  | nil => exact absurd rfl hne
  | cons e rest ih =>
    by_cases hrest : rest = []
    · subst hrest
      simpa using importText_ends e.1 e.2
    · obtain ⟨start, hstart⟩ := ih hrest
      have hmap : (rest.map fun e => Script.importText e.1 e.2) ≠ [] := by simpa using hrest
      refine ⟨(Script.importText e.1 e.2 ++ "\n").toList ++ start, ?_⟩
      rw [List.map_cons, String.intercalate_cons_of_ne_nil hmap, String.toList_append, hstart,
        List.append_assoc]

theorem text_importing (declared : List (String × ImportClause)) (hne : declared ≠ []) :
    (Script.Node.program (declared.map fun e => .importing e.1 e.2)).text =
      "\n".intercalate (declared.map fun e => Script.importText e.1 e.2) := by
  -- the last declaration ends with its quote, so that only the line feed after it is trimmed
  obtain ⟨start, hstart⟩ := importTexts_end declared hne
  have hfeed : "\n".toList = ['\n'] := rfl
  rw [Script.Node.text, Script.Node.write, write_importing _ hne, trimEnd, String.toList_append,
    hfeed, dropEndWhile_concat_of_pos (by decide), hstart, dropEndWhile_concat_of_neg (by decide),
    ← hstart, String.ofList_toList]

/-! ## Chunks -/

def declaringChunks (declared : DependencyKind → List (String × ImportClause)) : List Chunk :=
  [.library, .package, .localPath].map fun kind =>
    declarationsChunk (importChunk kind) (declared kind)

def moduleStore (fileName : String) (styles : List ClassStyle) (name : String)
    (body : List Script.Node) (declared : DependencyKind → List (String × ImportClause)) :
    ChunkStore :=
  ⟨sheetChunks fileName styles ++ scriptChunk name body :: declaringChunks declared⟩

theorem fileType_of_mem_module {chunk : Chunk}
    (h : chunk ∈ scriptChunk name body :: declaringChunks declared) : chunk.fileType = .js := by
  rcases List.mem_cons.1 h with rfl | h
  · rfl
  · obtain ⟨kind, -, rfl⟩ := List.mem_map.1 h
    rw [declarationsChunk_eq]
    rfl

theorem addAll_script (hchunks : d.chunks = ⟨sheetChunks fileName styles⟩) :
    (d.addChunks [scriptChunk name body]).chunks =
      ⟨sheetChunks fileName styles ++ [scriptChunk name body]⟩ := by
  have hnew : ChunkStore.key (scriptChunk name body) ∉
      (sheetChunks fileName styles).map ChunkStore.key :=
    key_notMem_sheetChunks (show FileType.js ≠ .css by decide)
  rw [Draft.addChunks, hchunks]
  exact congrArg ChunkStore.mk (ChunkStore.placeChunk_of_notMem hnew)

theorem chunks_withImportChunks (hname : name ∉ importChunks)
    (hchunks : d.chunks = ⟨sheetChunks fileName styles ++ [scriptChunk name body]⟩) :
    (withImportChunks d declared).chunks = moduleStore fileName styles name body declared := by
  have hkeys : (scriptChunk name body :: declaringChunks declared).map ChunkStore.key =
      [(.js, name), (.js, "import-lib"), (.js, "import-pack"), (.js, "import-local")] := by
    simp [declaringChunks, declarationsChunk_eq, ChunkStore.key, importChunk, scriptChunk,
      Chunk.ofCode, Chunk.after]
  have hnodup : ((sheetChunks fileName styles ++ scriptChunk name body ::
      declaringChunks declared).map ChunkStore.key).Nodup := by
    refine nodup_key_sheetChunks_append ?_ fun chunk hchunk => ?_
    · rw [hkeys]
      simpa [importChunks] using hname
    · rw [fileType_of_mem_module hchunk]
      decide
  have hsplit : sheetChunks fileName styles ++ scriptChunk name body :: declaringChunks declared =
      (sheetChunks fileName styles ++ [scriptChunk name body]) ++ declaringChunks declared := by
    rw [List.append_assoc, List.singleton_append]
  rw [hsplit] at hnodup
  rw [withImportChunks, Draft.addChunks, hchunks, moduleStore, hsplit]
  exact ChunkStore.addAll_of_nodup hnodup

/-- The import chunks add no imports. -/
theorem allImports_withImportChunks (hname : name ∉ importChunks)
    (hchunks : d.chunks = ⟨sheetChunks fileName styles ++ [scriptChunk name body]⟩) :
    (withImportChunks d declared).allImports = d.allImports := by
  have hnone : (declaringChunks declared).flatMap (·.dependencies) = [] := by
    simp [declaringChunks, declarationsChunk_eq, Chunk.ofCode]
  rw [Draft.allImports, Draft.allImports, chunks_withImportChunks hname hchunks, hchunks,
    ChunkStore.dependencies, ChunkStore.dependencies, moduleStore, List.flatMap_append,
    List.flatMap_append, List.flatMap_cons, hnone]
  rfl

def importLines (declared : DependencyKind → List (String × ImportClause)) (kind : DependencyKind) :
    List String :=
  (declared kind).map fun e => Script.importText e.1 e.2

/-- The import chunks that are not hidden give the blocks of lines that are not empty. -/
theorem render_declaringChunks (kinds : List DependencyKind) :
    ((kinds.map fun kind => declarationsChunk (importChunk kind) (declared kind)).filter
      (·.emits)).map (·.content.render) =
      ((kinds.map (importLines declared)).filter (· ≠ [])).map "\n".intercalate := by
  induction kinds with
  | nil => rfl
  | cons kind rest ih =>
    by_cases hnone : declared kind = []
    · have hhidden : (declarationsChunk (importChunk kind) (declared kind)).emits = false := by
        rw [declarationsChunk_eq, hnone]
        rfl
      have hlines : importLines declared kind = [] := by rw [importLines, hnone, List.map_nil]
      simpa [hhidden, hlines] using ih
    · have hemits : (declarationsChunk (importChunk kind) (declared kind)).emits = true := by
        simpa [declarationsChunk_eq, Chunk.emits, Chunk.ofCode] using hnone
      have hlines : importLines declared kind ≠ [] := by simpa [importLines] using hnone
      have hrender : (declarationsChunk (importChunk kind) (declared kind)).content.render =
          "\n".intercalate (importLines declared kind) := by
        rw [content_declarationsChunk]
        exact text_importing _ hnone
      simpa [hemits, hlines, hrender] using ih

theorem link_moduleStore (fileName : String) (styles : List ClassStyle) (name : String)
    (body : List Script.Node) (declared : DependencyKind → List (String × ImportClause)) :
    (moduleStore fileName styles name body declared).link .js =
    .ok (moduleText (declared .library ++ declared .package ++ declared .localPath) body) := by
  have htype : (moduleStore fileName styles name body declared).ofType .js =
      scriptChunk name body :: declaringChunks declared := by
    rw [moduleStore, ofType_sheetChunks_append (by decide)]
    exact List.filter_eq_self.2 fun chunk h => by simp [fileType_of_mem_module h]
  have hlinks : ChunkStore.links (scriptChunk name body :: declaringChunks declared) =
      [(name, importChunks), ("import-lib", []), ("import-pack", []), ("import-local", [])] := by
    simp [ChunkStore.links, declaringChunks, declarationsChunk_eq, importChunk, scriptChunk,
      Chunk.ofCode, Chunk.after]
  have horder : LinkOrder.resolve .js
      [(name, importChunks), ("import-lib", []), ("import-pack", []), ("import-local", [])] =
        .ok [1, 2, 3, 0] := rfl
  rw [← hlinks] at horder
  have haccepts : ∀ c ∈ scriptChunk name body :: declaringChunks declared,
      FileType.js.accepts c.content.representation = true := by
    intro c hc
    rcases List.mem_cons.1 hc with rfl | hc
    · rfl
    · obtain ⟨kind, -, rfl⟩ := List.mem_map.1 hc
      rw [content_declarationsChunk]
      rfl
  have hchunks : [1, 2, 3, 0].filterMap ((scriptChunk name body :: declaringChunks declared)[·]?) =
      declaringChunks declared ++ [scriptChunk name body] := rfl
  -- a hidden import chunk is a block without lines, which leaves no line of the text
  let blocks : List (List String) := [DependencyKind.library, .package, .localPath].map
    (importLines declared) ++ [[(Script.Node.program body).text]]
  have hblocks : ((declaringChunks declared ++ [scriptChunk name body]).filter (·.emits)).map
      (·.content.render) = (blocks.filter (· ≠ [])).map "\n".intercalate := by
    rw [List.filter_append, List.map_append, declaringChunks, render_declaringChunks,
      List.filter_append, List.map_append]
    rfl
  rw [ChunkStore.link_of_resolve htype horder haccepts, hchunks, hblocks, intercalate_blocks]
  simp [blocks, moduleText, importLines]

/-! ## Generations -/

/-- A text that declares all of some imports and has some statements after them. -/
def IsModule (imports : Imports) (body : List Script.Node) (text : String) : Prop :=
  ∃ declared : DependencyKind → List (String × ImportClause),
    (∀ kind, Declares kind imports (declared kind)) ∧
    text = normalizeText
      (moduleText (declared .library ++ declared .package ++ declared .localPath) body)

section Generation

variable {g : Generator} {c : Component} {options : Options} {compiled : Compiled}
  {plugins : List Plugin} {Made : List ClassStyle → List Script.Node → Prop}

/-- Once its import chunks are made, a module links. -/
theorem linkFiles_withImportChunks (hg : g.postProcessors = [normalizeWhitespace])
    (hname : name ∉ importChunks)
    (hchunks : d.chunks = ⟨sheetChunks fileName styles ++ [scriptChunk name body]⟩)
    (h : importStatements.run d = .ok draft) (target : String) :
    ∃ imports files text, draft.allImports = .ok imports ∧ IsModule imports body text ∧
      g.linkFiles draft.chunks target = .ok files ∧ ∀ file, file ∈ files ↔
        file = File.ofParts target "js" text ∨ (styles ≠ [] ∧ file = File.ofParts target "css"
          (normalizeText (sheetText (styles.map ClassStyle.rule)))) := by
  obtain ⟨imports, declared, himports, hdeclares, rfl⟩ := run_importStatements_ok h
  obtain ⟨files, hfiles, hmem⟩ := linkFiles_sheetChunks hg (by decide)
    (fun chunk (h : chunk ∈ scriptChunk name body :: declaringChunks declared) =>
      fileType_of_mem_module h)
    ⟨scriptChunk name body, List.mem_cons_self, rfl⟩
    (link_moduleStore fileName styles name body declared) target
  refine ⟨imports, files, _, ?_, ⟨declared, hdeclares, rfl⟩, ?_, hmem⟩
  · rw [allImports_withImportChunks hname hchunks, himports]
  · rw [chunks_withImportChunks hname hchunks]
    exact hfiles

variable (hg : g.postProcessors = [normalizeWhitespace]) (hname : name ∉ importChunks)
  (hplugins : g.plugins = plugins ++ [importStatements])
  (hscript : ∀ d, runPlugins plugins (g.start c options) = .ok d → ∃ styles body,
    Made styles body ∧ d.chunks = ⟨sheetChunks c.fileName styles ++ [scriptChunk name body]⟩)
include hg hname hplugins hscript

theorem completes_module : g.Completes c options := by
  intro draft hdraft
  rw [hplugins, runPlugins_append] at hdraft
  obtain ⟨d, hd, hdraft⟩ := bind_ok_iff.1 hdraft
  rw [runPlugins_singleton] at hdraft
  obtain ⟨styles, body, -, hchunks⟩ := hscript d hd
  obtain ⟨imports, files, -, himports, -, hfiles, -⟩ :=
    linkFiles_withImportChunks hg hname hchunks hdraft c.fileName
  exact ⟨imports, files, himports, hfiles⟩

theorem generate_module_error
    (hfault : ∀ f, runPlugins plugins (g.start c options) = .error f → ModuleFault name f)
    (h : g.generate c options = .error f) : ModuleFault name f := by
  rcases (completes_module hg hname hplugins hscript).generate_error h with ⟨reason, rfl⟩ | h
  · exact .options reason
  · rw [hplugins, runPlugins_append] at h
    rcases bind_error_iff.1 h with h | ⟨d, -, h⟩
    · exact hfault f h
    · rw [runPlugins_singleton] at h
      exact run_importStatements_error h

theorem generate_module_ok (h : g.generate c options = .ok compiled) :
    ∃ draft imports text styles body, runPlugins g.plugins (g.start c options) = .ok draft ∧
      draft.allImports = .ok imports ∧ Made styles body ∧ IsModule imports body text ∧
      ∀ file, file ∈ compiled.files ↔ file = File.ofParts c.fileName "js" text ∨
        (styles ≠ [] ∧ file = File.ofParts c.fileName "css"
          (normalizeText (sheetText (styles.map ClassStyle.rule)))) := by
  obtain ⟨-, draft, imports, files, hdraft, himports, hfiles, rfl⟩ := Generator.generate_ok_iff.1 h
  have hrun := hdraft
  rw [hplugins, runPlugins_append] at hrun
  obtain ⟨d, hd, hrun⟩ := bind_ok_iff.1 hrun
  rw [runPlugins_singleton] at hrun
  obtain ⟨styles, body, hmade, hchunks⟩ := hscript d hd
  -- imports and files are those of the generation, since both are made from the same draft
  obtain ⟨imports', files', text, himports', hmodule, hfiles', hmem⟩ :=
    linkFiles_withImportChunks hg hname hchunks hrun c.fileName
  obtain rfl := Except.ok.inj (himports.symm.trans himports')
  obtain rfl := Except.ok.inj (hfiles.symm.trans hfiles')
  exact ⟨draft, imports, text, styles, body, hdraft, himports, hmade, hmodule, hmem⟩

end Generation

/-- What a component's module is made from: its styles, and the statements around its markup. -/
def MadeFrom (c : Component) (options : Options) (styles : List ClassStyle)
    (body : List Script.Node) : Prop :=
  let mapping := Generator.reactComponent.mappingFor options
  let extracted := extractStyles (mapping.resolveTree c.node)
  styles = extracted.2 ∧
    ∃ root, (markup mapping extracted.1).element? = some root ∧ body = moduleBody c root

variable {c : Component} {options : Options}

theorem runPlugins_component_ok
    (h : runPlugins [componentSheet, component] (Generator.reactComponent.start c options) = .ok d) :
    ∃ styles body, MadeFrom c options styles body ∧
      d.chunks = ⟨sheetChunks c.fileName styles ++ [scriptChunk "jsx-component" body]⟩ := by
  obtain ⟨imports, -, hsheet⟩ := run_componentSheet (d := Generator.reactComponent.start c options)
    rfl Imports.selfNamed_empty
  rw [runPlugins_cons] at h
  obtain ⟨d₁, hd₁, h⟩ := bind_ok_iff.1 h
  rw [runPlugins_singleton] at h
  obtain rfl := Except.ok.inj (hsheet.symm.trans hd₁)
  obtain ⟨root, imports', hroot, rfl⟩ := run_component_ok h
  exact ⟨_, _, ⟨rfl, root, hroot, rfl⟩, addAll_script rfl⟩

theorem runPlugins_component_error
    (h : runPlugins [componentSheet, component] (Generator.reactComponent.start c options) =
      .error f) : ModuleFault "jsx-component" f := by
  obtain ⟨imports, -, hsheet⟩ := run_componentSheet (d := Generator.reactComponent.start c options)
    rfl Imports.selfNamed_empty
  rw [runPlugins_cons] at h
  rcases bind_error_iff.1 h with h | ⟨d₁, -, h⟩
  · rw [hsheet] at h
    cases h
  · rw [runPlugins_singleton] at h
    exact run_component_error h

theorem runPlugins_router_ok
    (h : runPlugins [router] (Generator.reactRouter.start c options) = .ok d) :
    ∃ styles body, (styles = [] ∧ body = application options.routes) ∧
      d.chunks = ⟨sheetChunks c.fileName styles ++ [scriptChunk "router" body]⟩ := by
  rw [runPlugins_singleton] at h
  obtain ⟨imports, rfl⟩ := run_router_ok h
  exact ⟨_, _, ⟨rfl, rfl⟩, addAll_script rfl⟩

theorem runPlugins_router_error
    (h : runPlugins [router] (Generator.reactRouter.start c options) = .error f) :
    ModuleFault "router" f := by
  rw [runPlugins_singleton] at h
  exact run_router_error h

end Sitewright.React
