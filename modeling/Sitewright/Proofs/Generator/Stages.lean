import Sitewright.Generator.Builtin
import Sitewright.Proofs.Chunk.LinkedText
import Sitewright.Proofs.Dependency.SelfNamed
import Sitewright.Proofs.Generator.Files

/-!
# Stages of a generation

A generation checks its options, runs its plugins, collects the imports and links the files. Each
stage is looked at on its own here: what it can fail with, and what it comes to.
-/

namespace Sitewright

open Outcome

variable {f : Fault}

namespace Options

variable {options : Options}

theorem checkPrefix_error (h : options.checkPrefix = .error f) :
    ∃ reason, f = .invalidStrategy reason := by
  rw [checkPrefix] at h
  split at h
  · split at h
    · cases h
    · exact ⟨_, (Except.error.inj h).symm⟩
  · cases h

theorem checkStyleSheet_error (h : options.checkStyleSheet = .error f) :
    ∃ reason, f = .invalidStrategy reason := by
  rw [checkStyleSheet] at h
  split at h
  · split at h
    · exact ⟨_, (Except.error.inj h).symm⟩
    · cases h
  · cases h

theorem checkRoute_error {r : Route} (h : checkRoute r = .error f) :
    ∃ reason, f = .invalidStrategy reason := by
  rw [checkRoute] at h
  split at h
  · exact ⟨_, (Except.error.inj h).symm⟩
  · cases h

theorem checkRoutes_error {routes : List Route} (h : routes.forM checkRoute = .error f) :
    ∃ reason, f = .invalidStrategy reason := by
  induction routes with
  | nil => cases h
  | cons r rest ih =>
    rcases bind_error_iff.1 h with h | ⟨_, -, h⟩
    · exact checkRoute_error h
    · exact ih h

theorem validate_error (h : options.validate = .error f) :
    ∃ reason, f = .invalidStrategy reason := by
  rcases bind_error_iff.1 h with h | ⟨_, -, h⟩
  · exact checkPrefix_error h
  · rcases bind_error_iff.1 h with h | ⟨_, -, h⟩
    · exact checkStyleSheet_error h
    · exact checkRoutes_error h

end Options

theorem runPlugins_cons (plugin : Plugin) (plugins : List Plugin) (d : Draft) :
    runPlugins (plugin :: plugins) d = plugin.run d >>= runPlugins plugins := List.foldlM_cons

theorem runPlugins_append (first rest : List Plugin) (d : Draft) :
    runPlugins (first ++ rest) d = runPlugins first d >>= runPlugins rest := List.foldlM_append

theorem runPlugins_singleton (plugin : Plugin) (d : Draft) :
    runPlugins [plugin] d = plugin.run d := bind_pure (plugin.run d)

theorem FileType.extension_injective : Function.Injective FileType.extension := by
  intro s t h
  cases s <;> cases t <;> first | rfl | (revert h; decide)

namespace ChunkStore

variable {store : ChunkStore} {linked : List (FileType × String)} {fileType : FileType}
  {text : String}

theorem exists_linkAll_ok_iff : (∃ linked, store.linkAll = .ok linked) ↔
    ∀ fileType ∈ store.fileTypes, ∃ text, store.link fileType = .ok text := by
  rw [linkAll, exists_mapM_ok_iff]
  simp only [map_ok_iff]
  constructor
  · intro h fileType hmem
    obtain ⟨_, text, htext, -⟩ := h fileType hmem
    exact ⟨text, htext⟩
  · intro h fileType hmem
    obtain ⟨text, htext⟩ := h fileType hmem
    exact ⟨_, text, htext, rfl⟩

theorem mem_of_linkAll (h : store.linkAll = .ok linked) :
    (fileType, text) ∈ linked ↔ fileType ∈ store.fileTypes ∧ store.link fileType = .ok text := by
  rw [mem_of_mapM_ok h]
  constructor
  · rintro ⟨t, ht, hlink⟩
    obtain ⟨s, hs, heq⟩ := map_ok_iff.1 hlink
    obtain ⟨rfl, rfl⟩ := Prod.mk.inj heq
    exact ⟨ht, hs⟩
  · rintro ⟨ht, hs⟩
    exact ⟨fileType, ht, map_ok_iff.2 ⟨text, hs, rfl⟩⟩

theorem fileTypes_of_linkAll (h : store.linkAll = .ok linked) :
    linked.map Prod.fst = store.fileTypes := by
  have hsteps := mapM_ok_iff.1 h
  clear h
  generalize store.fileTypes = types at hsteps
  induction hsteps with
  | nil => rfl
  | cons hlink _ ih =>
    obtain ⟨text, -, rfl⟩ := map_ok_iff.1 hlink
    rw [List.map_cons, ih]

/-- The linked texts have different extensions. -/
theorem nodup_extensions (h : store.linkAll = .ok linked) :
    ((linked.map fun e => (e.1.extension, e.2)).map Prod.fst).Nodup := by
  have htypes := store.nodup_fileTypes
  rw [← fileTypes_of_linkAll h] at htypes
  have hnodup := htypes.map FileType.extension_injective
  rwa [List.map_map] at hnodup ⊢

end ChunkStore

variable {fileName : String}

/-- Outputs under different extensions become files in their own order. -/
theorem outputFiles_ofList {texts : List (String × String)} (h : (texts.map Prod.fst).Nodup)
    (f : String → String) :
    outputFiles fileName (texts.map Prod.fst) ((Table.ofList texts).map f) =
      texts.map fun e => File.ofParts fileName e.1 (f e.2) := by
  have hfirst : ((texts.map Prod.fst).filterMap fun extension =>
      (((Table.ofList texts).map f).get? extension).map fun text =>
        File.ofParts fileName extension text) =
      texts.map fun e => File.ofParts fileName e.1 (f e.2) := by
    rw [List.filterMap_map, List.filterMap_eq_map_iff_forall_eq_some]
    rintro ⟨extension, text⟩ he
    have hget : (Table.ofList texts).get? extension = some text := Table.get?_insertAll h he
    simp [Table.get?_map, hget]
  have hrest : ((Table.ofList texts).map f).entries.filter
      (!(texts.map Prod.fst).contains ·.1) = [] := by
    rw [List.filter_eq_nil_iff]
    intro e he
    obtain ⟨e', he', rfl⟩ := List.mem_map.1 he
    have hmem : e'.1 ∈ texts.map Prod.fst := List.mem_map_of_mem (Table.mem_of_mem_ofList he')
    simpa using hmem
  rw [outputFiles, hfirst, hrest, List.map_nil, List.append_nil]

/-- The processor fails with a fault of its own only. -/
def PostProcessor.FailsAsItself (p : PostProcessor) : Prop :=
  ∀ outputs f, p.process outputs = .error f → ∃ reason, f = .postProcessorFailed p.name reason

theorem formatCss_failsAsItself : formatCss.FailsAsItself := by
  intro outputs f h
  simp only [formatCss] at h
  split at h
  · cases h
  · split at h
    · cases h
    · exact ⟨_, (Except.error.inj h).symm⟩

namespace Generator

variable {g : Generator} {c : Component} {options : Options} {compiled : Compiled}
  {chunks : ChunkStore}

theorem generate_ok_iff : g.generate c options = .ok compiled ↔
    options.validate = .ok () ∧ ∃ draft imports files,
      runPlugins g.plugins (g.start c options) = .ok draft ∧ draft.allImports = .ok imports ∧
      g.linkFiles draft.chunks c.fileName = .ok files ∧
      compiled = ⟨files, imports.packageVersions⟩ := by
  simp only [generate, bind_ok_iff]
  constructor
  · rintro ⟨_, hvalid, draft, hdraft, imports, himports, files, hfiles, hcompiled⟩
    exact ⟨hvalid, draft, imports, files, hdraft, himports, hfiles, (Except.ok.inj hcompiled).symm⟩
  · rintro ⟨hvalid, draft, imports, files, hdraft, himports, hfiles, rfl⟩
    exact ⟨(), hvalid, draft, hdraft, imports, himports, files, hfiles, rfl⟩

theorem generate_error (h : g.generate c options = .error f) :
    (∃ reason, f = .invalidStrategy reason) ∨
    runPlugins g.plugins (g.start c options) = .error f ∨
    ∃ draft, runPlugins g.plugins (g.start c options) = .ok draft ∧
      (draft.allImports = .error f ∨ g.linkFiles draft.chunks c.fileName = .error f) := by
  rcases bind_error_iff.1 h with h | ⟨_, -, h⟩
  · exact .inl (Options.validate_error h)
  · rcases bind_error_iff.1 h with h | ⟨draft, hdraft, h⟩
    · exact .inr (.inl h)
    · refine .inr (.inr ⟨draft, hdraft, ?_⟩)
      rcases bind_error_iff.1 h with h | ⟨imports, -, h⟩
      · exact .inl h
      · rcases bind_error_iff.1 h with h | ⟨files, -, h⟩
        · exact .inr h
        · cases h

/-- What the plugins have made has imports and links into files. -/
def Completes (g : Generator) (c : Component) (options : Options) : Prop :=
  ∀ draft, runPlugins g.plugins (g.start c options) = .ok draft → ∃ imports files,
    draft.allImports = .ok imports ∧ g.linkFiles draft.chunks c.fileName = .ok files

/-- If what the plugins make is sure to link, a generation fails with the options or a plugin. -/
theorem Completes.generate_error (h : g.Completes c options)
    (hf : g.generate c options = .error f) : (∃ reason, f = .invalidStrategy reason) ∨
      runPlugins g.plugins (g.start c options) = .error f := by
  rcases Generator.generate_error hf with hf | hf | ⟨draft, hdraft, hf⟩
  · exact .inl hf
  · exact .inr hf
  · obtain ⟨imports, files, himports, hfiles⟩ := h draft hdraft
    rcases hf with hf | hf
    · rw [himports] at hf
      cases hf
    · rw [hfiles] at hf
      cases hf

theorem Completes.exists_generate_ok_iff (h : g.Completes c options) :
    (∃ compiled, g.generate c options = .ok compiled) ↔
      options.validate = .ok () ∧ ∃ draft, runPlugins g.plugins (g.start c options) = .ok draft := by
  constructor
  · rintro ⟨compiled, hcompiled⟩
    obtain ⟨hvalid, draft, -, -, hdraft, -⟩ := generate_ok_iff.1 hcompiled
    exact ⟨hvalid, draft, hdraft⟩
  · rintro ⟨hvalid, draft, hdraft⟩
    obtain ⟨imports, files, himports, hfiles⟩ := h draft hdraft
    exact ⟨_, generate_ok_iff.2 ⟨hvalid, draft, imports, files, hdraft, himports, hfiles, rfl⟩⟩

/-- Chunks that link into texts become the files of these texts with their white space
normalized. -/
theorem linkFiles_normalized (chunks : ChunkStore) (fileName : String)
    (hg : g.postProcessors = [normalizeWhitespace])
    (hlink : ∀ fileType ∈ chunks.fileTypes, ∃ text, chunks.link fileType = .ok text) :
    ∃ files, g.linkFiles chunks fileName = .ok files ∧ ∀ file, file ∈ files ↔
      ∃ fileType ∈ chunks.fileTypes, ∃ text, chunks.link fileType = .ok text ∧
        file = File.ofParts fileName fileType.extension (normalizeText text) := by
  obtain ⟨linked, hlinked⟩ := ChunkStore.exists_linkAll_ok_iff.2 hlink
  let texts := linked.map fun e => (e.1.extension, e.2)
  refine ⟨texts.map fun e => File.ofParts fileName e.1 (normalizeText e.2), ?_, fun file => ?_⟩
  · rw [← outputFiles_ofList (ChunkStore.nodup_extensions hlinked) normalizeText, linkFiles, hlinked, hg]
    rfl
  · simp only [texts, List.map_map, List.mem_map, Function.comp_def, Prod.exists,
      ChunkStore.mem_of_linkAll hlinked]
    constructor
    · rintro ⟨fileType, text, ⟨hmem, htext⟩, rfl⟩
      exact ⟨fileType, hmem, text, htext, rfl⟩
    · rintro ⟨fileType, hmem, text, htext, rfl⟩
      exact ⟨fileType, text, ⟨hmem, htext⟩, rfl⟩

end Generator

end Sitewright
