import Sitewright.Proofs.Generator.Stages

/-!
# Style sheets of components

A component has a style sheet exactly when one of its elements has a style. The sheet is then a file
of its own, whatever the chunks of other types are, and its import is recorded under its own path.
-/

namespace Sitewright

open Outcome

def sheetRecord (path : String) : String × Dependency :=
  (path, (Dependency.localPath path).sideEffect)

theorem source_of_mem_sheetRecords {paths : List String} {r : String × Dependency}
    (h : r ∈ paths.map sheetRecord) : r.2.source = r.1 := by
  obtain ⟨path, -, rfl⟩ := List.mem_map.1 h
  rfl

theorem Options.exists_globalSheets (options : Options) : ∃ paths : List String,
    options.globalStyleSheet?.toList = paths.map sheetRecord ∧ ∀ path, path ∈ paths ↔
      ∃ sheet, options.styleSheet = some sheet ∧ (sheet.importFile = true ∨ options.isRoot = true) ∧
        path = joinModulePath sheet.path (sheet.fileName ++ ".css") := by
  rw [globalStyleSheet?]
  cases hsheet : options.styleSheet with
  | none => exact ⟨[], rfl, by simp⟩
  | some sheet =>
    by_cases himport : sheet.importFile = true ∨ options.isRoot = true
    · refine ⟨[joinModulePath sheet.path (sheet.fileName ++ ".css")], ?_, ?_⟩
      · rw [Option.bind_some, if_pos (Bool.or_eq_true_iff.2 himport)]
        rfl
      · simp [himport]
    · refine ⟨[], ?_, by simp [himport]⟩
      rw [Option.bind_some, if_neg fun h => himport (Bool.or_eq_true_iff.1 h)]
      rfl

theorem Options.globalStyleSheet?_selfNamed (options : Options) :
    ∀ r ∈ options.globalStyleSheet?.toList, r.2.source = r.1 := by
  obtain ⟨paths, hpaths, -⟩ := options.exists_globalSheets
  intro r hr
  exact source_of_mem_sheetRecords (hpaths ▸ hr)

theorem Draft.importAll_selfNamed {d : Draft} {records : List (String × Dependency)}
    (h : d.imports.SelfNamed) (hrecords : ∀ r ∈ records, r.2.source = r.1) :
    ∃ imports, d.importAll records = .ok { d with imports } ∧ imports.SelfNamed := by
  obtain ⟨imports, himports, hnamed⟩ := h.mergeAll hrecords
  exact ⟨imports, map_ok_iff.2 ⟨imports, himports, rfl⟩, hnamed⟩

namespace Style

variable {fileName : String} {styles : List ClassStyle} {others : List Chunk}

theorem fileType_of_mem_sheetChunks {c : Chunk} (h : c ∈ sheetChunks fileName styles) :
    c.fileType = .css := by
  rw [sheetChunks] at h
  split at h
  · simp at h
  · rcases List.mem_pair.1 h with rfl | rfl
    · rfl
    · rfl

theorem exists_ownSheets (fileName : String) (styles : List ClassStyle) : ∃ paths : List String,
    (sheetChunks fileName styles).flatMap (·.dependencies) = paths.map sheetRecord ∧
      ∀ path, path ∈ paths ↔ styles ≠ [] ∧ path = "./" ++ fileName ++ ".css" := by
  cases styles with
  | nil => exact ⟨[], rfl, by simp⟩
  | cons s styles => exact ⟨["./" ++ fileName ++ ".css"], rfl, by simp⟩

theorem dependencies_sheetChunks {r : String × Dependency}
    (h : r ∈ (sheetChunks fileName styles).flatMap (·.dependencies)) : r.2.source = r.1 := by
  obtain ⟨paths, hpaths, -⟩ := exists_ownSheets fileName styles
  exact source_of_mem_sheetRecords (hpaths ▸ h)

theorem nodup_key_sheetChunks : ((sheetChunks fileName styles).map ChunkStore.key).Nodup := by
  rw [sheetChunks]
  split
  · exact List.nodup_nil
  · have hkeys : [(FileType.css, "style"), (.css, "style-import")].Nodup := by decide
    exact hkeys

theorem key_notMem_sheetChunks {key : FileType × String} (h : key.1 ≠ .css) :
    key ∉ (sheetChunks fileName styles).map ChunkStore.key := by
  intro hmem
  obtain ⟨c, hc, rfl⟩ := List.mem_map.1 hmem
  exact h (fileType_of_mem_sheetChunks hc)

theorem nodup_key_sheetChunks_append (hothers : (others.map ChunkStore.key).Nodup)
    (hcss : ∀ c ∈ others, c.fileType ≠ .css) :
    ((sheetChunks fileName styles ++ others).map ChunkStore.key).Nodup := by
  rw [List.map_append, List.nodup_append]
  refine ⟨nodup_key_sheetChunks, hothers, ?_⟩
  rintro key hkey _ hmem rfl
  obtain ⟨c, hc, rfl⟩ := List.mem_map.1 hmem
  exact key_notMem_sheetChunks (hcss c hc) hkey

theorem ofType_sheetChunks_append {fileType : FileType} (h : fileType ≠ .css) :
    (ChunkStore.mk (sheetChunks fileName styles ++ others)).ofType fileType =
      others.filter (·.fileType = fileType) := by
  have hnone : (sheetChunks fileName styles).filter (·.fileType = fileType) = [] := by
    rw [List.filter_eq_nil_iff]
    intro c hc
    simpa [fileType_of_mem_sheetChunks hc] using h.symm
  rw [ChunkStore.ofType, List.filter_append, hnone, List.nil_append]

theorem link_sheetChunks (hothers : ∀ c ∈ others, c.fileType ≠ .css) (hstyles : styles ≠ []) :
    (ChunkStore.mk (sheetChunks fileName styles ++ others)).link .css =
      .ok (sheetText (styles.map ClassStyle.rule)) := by
  have hsheet : sheetChunks fileName styles =
      [Chunk.ofText "style" .css (sheetText (styles.map ClassStyle.rule)),
        Chunk.ofDependencies "style-import" .css [("./" ++ fileName ++ ".css",
          (Dependency.localPath ("./" ++ fileName ++ ".css")).sideEffect)]] := by
    rw [sheetChunks, if_neg (by simpa using hstyles)]
  have htype : (ChunkStore.mk (sheetChunks fileName styles ++ others)).ofType .css =
      sheetChunks fileName styles := by
    have hnone : others.filter (·.fileType = .css) = [] := by
      simpa [List.filter_eq_nil_iff] using hothers
    have hall : (sheetChunks fileName styles).filter (·.fileType = .css) =
        sheetChunks fileName styles :=
      List.filter_eq_self.2 fun c hc => by simp [fileType_of_mem_sheetChunks hc]
    rw [ChunkStore.ofType, List.filter_append, hnone, hall, List.append_nil]
  have horder : LinkOrder.resolve .css [("style", []), ("style-import", [])] = .ok [0, 1] := by
    decide
  rw [ChunkStore.link_of_resolve (htype.trans hsheet) horder (by simp [Chunk.ofText,
    Chunk.ofDependencies, Content.representation, FileType.accepts])]
  simp [Chunk.ofText, Chunk.ofDependencies, Chunk.emits, Content.render]

theorem mem_fileTypes_sheetChunks_append {fileType : FileType} :
    fileType ∈ (ChunkStore.mk (sheetChunks fileName styles ++ others)).fileTypes ↔
      (fileType = .css ∧ styles ≠ []) ∨ ∃ c ∈ others, c.emits = true ∧ c.fileType = fileType := by
  rw [ChunkStore.mem_fileTypes_iff]
  simp only [List.mem_append, or_and_right, exists_or]
  refine or_congr_left ?_
  rw [sheetChunks]
  by_cases hstyles : styles = []
  · simp [hstyles]
  · rw [if_neg (by simpa using hstyles)]
    constructor
    · rintro ⟨c, hc, hemits, rfl⟩
      rcases List.mem_pair.1 hc with rfl | rfl
      · exact ⟨rfl, hstyles⟩
      · cases hemits
    · rintro ⟨rfl, -⟩
      exact ⟨_, List.mem_cons_self, rfl, rfl⟩

/-- A style sheet and the chunks of one other type become two files, or one if there are no
styles. -/
theorem linkFiles_sheetChunks {g : Generator} {fileType : FileType} {text : String}
    (hg : g.postProcessors = [normalizeWhitespace]) (htype : fileType ≠ .css)
    (hothers : ∀ c ∈ others, c.fileType = fileType) (hemits : ∃ c ∈ others, c.emits = true)
    (hlink : (ChunkStore.mk (sheetChunks fileName styles ++ others)).link fileType = .ok text)
    (name : String) : ∃ files,
    g.linkFiles ⟨sheetChunks fileName styles ++ others⟩ name = .ok files ∧ ∀ file, file ∈ files ↔
      file = File.ofParts name fileType.extension (normalizeText text) ∨
      (styles ≠ [] ∧ file = File.ofParts name "css"
        (normalizeText (sheetText (styles.map ClassStyle.rule)))) := by
  have hcss (hstyles : styles ≠ []) :
      (ChunkStore.mk (sheetChunks fileName styles ++ others)).link .css =
        .ok (sheetText (styles.map ClassStyle.rule)) :=
    link_sheetChunks (fun c hc => hothers c hc ▸ htype) hstyles
  have htypes {t : FileType} :
      t ∈ (ChunkStore.mk (sheetChunks fileName styles ++ others)).fileTypes ↔
        (t = .css ∧ styles ≠ []) ∨ t = fileType := by
    rw [mem_fileTypes_sheetChunks_append]
    refine or_congr_right ⟨?_, ?_⟩
    · rintro ⟨c, hc, -, rfl⟩
      exact hothers c hc
    · rintro rfl
      obtain ⟨c, hc, hemits⟩ := hemits
      exact ⟨c, hc, hemits, hothers c hc⟩
  obtain ⟨files, hfiles, hmem⟩ := Generator.linkFiles_normalized
    ⟨sheetChunks fileName styles ++ others⟩ name hg (by
      intro t ht
      rcases htypes.1 ht with ⟨rfl, hstyles⟩ | rfl
      · exact ⟨_, hcss hstyles⟩
      · exact ⟨text, hlink⟩)
  refine ⟨files, hfiles, fun file => (hmem file).trans ⟨?_, ?_⟩⟩
  · rintro ⟨t, ht, text', htext, rfl⟩
    rcases htypes.1 ht with ⟨rfl, hstyles⟩ | rfl
    · rw [hcss hstyles] at htext
      exact .inr ⟨hstyles, Except.ok.inj htext ▸ rfl⟩
    · rw [hlink] at htext
      exact .inl (Except.ok.inj htext ▸ rfl)
  · rintro (rfl | ⟨hstyles, rfl⟩)
    · exact ⟨fileType, htypes.2 (.inr rfl), text, hlink, rfl⟩
    · exact ⟨.css, htypes.2 (.inl ⟨rfl, hstyles⟩), _, hcss hstyles, rfl⟩

/-- The first plugin of a component never fails. -/
theorem run_componentSheet {d : Draft} (hchunks : d.chunks = {}) (h : d.imports.SelfNamed) :
    ∃ imports, imports.SelfNamed ∧ componentSheet.run d = .ok
      { d with
        component := { d.component with node := (extractStyles d.component.node).1 }
        chunks := ⟨sheetChunks d.component.fileName (extractStyles d.component.node).2⟩
        imports } := by
  let styled : Draft :=
    { d with component := { d.component with node := (extractStyles d.component.node).1 } }
  let sheets := sheetChunks d.component.fileName (extractStyles d.component.node).2
  have hadd : d.chunks.addAll sheets = ⟨sheets⟩ := by
    rw [hchunks]
    exact ChunkStore.addAll_of_nodup nodup_key_sheetChunks
  obtain ⟨imports, himports, hnamed⟩ :=
    Draft.importAll_selfNamed (d := styled.addChunks sheets) h d.options.globalStyleSheet?_selfNamed
  refine ⟨imports, hnamed, ?_⟩
  rw [← hadd]
  exact himports

theorem imports_componentSheet {d next : Draft} (h : componentSheet.run d = .ok next) :
    d.imports.mergeAll d.options.globalStyleSheet?.toList = .ok next.imports := by
  obtain ⟨imports, himports, rfl⟩ := map_ok_iff.1 h
  exact himports

end Style

end Sitewright
