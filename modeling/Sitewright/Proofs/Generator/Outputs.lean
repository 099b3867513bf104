import Sitewright.Proofs.Generator.Stages
import Sitewright.Proofs.Text.ByteOrder

/-!
# Outputs of post-processing

Post-processors work one after another on the linked texts by extension, and may change, drop and
add outputs as they like. The first one that fails ends the work with its fault. Otherwise every
output that is there at the end becomes one file: those of linked file types come first, in the
order in which chunks of these types first emit, and the others after them in byte order.
-/

namespace Sitewright

open Outcome

variable {p : PostProcessor} {processors : List PostProcessor} {outputs last : Table String}
  {f : Fault} {store : ChunkStore} {fileName x y : String} {files files' : List File}

/-! ## Post-processors one after another -/

/-- Post-processors that come to a result, each with what the one before it has made. -/
inductive Processes : List PostProcessor → Table String → Table String → Prop
  | nil (outputs : Table String) : Processes [] outputs outputs
  | cons {p : PostProcessor} {rest : List PostProcessor} {outputs next last : Table String}
      (hp : p.process outputs = .ok next) (hrest : Processes rest next last) :
      Processes (p :: rest) outputs last

/-- The first post-processor that fails does so with a fault, on what those before it have made. -/
def FailsFirst (processors : List PostProcessor) (outputs : Table String) (f : Fault) : Prop :=
  ∃ before p after reached, processors = before ++ p :: after ∧
    Processes before outputs reached ∧ p.process reached = .error f

theorem runPostProcessors_cons (p : PostProcessor) (processors : List PostProcessor)
    (outputs : Table String) : runPostProcessors (p :: processors) outputs =
      p.process outputs >>= runPostProcessors processors := List.foldlM_cons

theorem runPostProcessors_ok_iff :
    runPostProcessors processors outputs = .ok last ↔ Processes processors outputs last := by
  induction processors generalizing outputs with
  | nil =>
    constructor
    · intro h
      obtain rfl := Except.ok.inj h
      exact .nil outputs
    · rintro ⟨⟩
      rfl
  | cons p processors ih =>
    rw [runPostProcessors_cons, bind_ok_iff]
    simp only [ih]
    constructor
    · rintro ⟨next, hp, hrest⟩
      exact .cons hp hrest
    · rintro (_ | ⟨hp, hrest⟩)
      exact ⟨_, hp, hrest⟩

theorem failsFirst_cons_iff : FailsFirst (p :: processors) outputs f ↔
    p.process outputs = .error f ∨
      ∃ next, p.process outputs = .ok next ∧ FailsFirst processors next f := by
  constructor
  · rintro ⟨before, q, after, reached, hsplit, hbefore, hq⟩
    cases hbefore with
    | nil =>
      obtain ⟨rfl, -⟩ := List.cons.inj hsplit
      exact .inl hq
    | cons hp hrest =>
      obtain ⟨rfl, rfl⟩ := List.cons.inj hsplit
      exact .inr ⟨_, hp, _, q, after, reached, rfl, hrest, hq⟩
  · rintro (hp | ⟨next, hp, before, q, after, reached, rfl, hbefore, hq⟩)
    · exact ⟨[], p, processors, outputs, rfl, .nil outputs, hp⟩
    · exact ⟨p :: before, q, after, reached, rfl, .cons hp hbefore, hq⟩

theorem runPostProcessors_error_iff :
    runPostProcessors processors outputs = .error f ↔ FailsFirst processors outputs f := by
  induction processors generalizing outputs with
  | nil =>
    refine iff_of_false nofun ?_
    rintro ⟨before, q, after, reached, hsplit, -⟩
    simp at hsplit
  | cons p processors ih =>
    rw [runPostProcessors_cons, bind_error_iff, failsFirst_cons_iff]
    simp only [ih]

/-! ## The order of files -/

namespace ChunkStore

def firstEmission (store : ChunkStore) (fileType : FileType) : Nat :=
  store.chunks.findIdx fun c => c.emits && c.fileType = fileType

theorem firstEmission_lt_iff {fileType : FileType} :
    store.firstEmission fileType < store.chunks.length ↔ fileType ∈ store.fileTypes := by
  rw [firstEmission, List.findIdx_lt_length, mem_fileTypes_iff]
  simp only [Bool.and_eq_true, decide_eq_true_eq]

theorem firstEmission_snoc {chunks : List Chunk} {fileType : FileType} (c : Chunk)
    (h : fileType ∈ fileTypes ⟨chunks⟩) :
    firstEmission ⟨chunks ++ [c]⟩ fileType = firstEmission ⟨chunks⟩ fileType := by
  have hlt := firstEmission_lt_iff.2 h
  rw [firstEmission] at hlt
  rw [firstEmission, List.findIdx_append, if_pos hlt]
  rfl

theorem le_firstEmission_snoc {chunks : List Chunk} {fileType : FileType} (c : Chunk)
    (h : fileType ∉ fileTypes ⟨chunks⟩) :
    chunks.length ≤ firstEmission ⟨chunks ++ [c]⟩ fileType := by
  have hlt := firstEmission_lt_iff.not.2 h
  rw [firstEmission] at hlt
  rw [firstEmission, List.findIdx_append, if_neg hlt]
  exact Nat.le_add_left _ _

theorem fileTypes_snoc (chunks : List Chunk) (c : Chunk) : fileTypes ⟨chunks ++ [c]⟩ =
    if c.emits = true ∧ c.fileType ∉ fileTypes ⟨chunks⟩ then fileTypes ⟨chunks⟩ ++ [c.fileType]
    else fileTypes ⟨chunks⟩ := by
  have hmem : c.fileType ∈ fileTypes ⟨chunks⟩ ↔
      c.fileType ∈ (chunks.filter (·.emits)).map (·.fileType) := List.mem_eraseDups
  simp only [hmem]
  simp only [fileTypes, List.filter_append, List.map_append, List.eraseDups_append]
  by_cases hemits : c.emits = true
  · by_cases hold : c.fileType ∈ (chunks.filter (·.emits)).map (·.fileType)
    · rw [if_neg fun h => h.2 hold]
      simp [hemits, List.removeAll, hold]
    · rw [if_pos ⟨hemits, hold⟩]
      simp [hemits, List.removeAll, hold, List.eraseDups_cons]
  · rw [if_neg fun h => hemits h.1]
    simp [hemits]

theorem pairwise_fileTypes (store : ChunkStore) :
    store.fileTypes.Pairwise fun s t => store.firstEmission s < store.firstEmission t := by
  obtain ⟨chunks⟩ := store
  induction chunks using List.reverseRecOn with
  | nil => exact .nil
  | append_singleton chunks c ih =>
    have hkept : (fileTypes ⟨chunks⟩).Pairwise fun s t =>
        firstEmission ⟨chunks ++ [c]⟩ s < firstEmission ⟨chunks ++ [c]⟩ t := by
      refine ih.imp_of_mem fun hs ht hlt => ?_
      rwa [firstEmission_snoc c hs, firstEmission_snoc c ht]
    rw [fileTypes_snoc]
    split
    · next hnew =>
      refine List.pairwise_append.2 ⟨hkept, List.pairwise_singleton _ _, fun s hs t ht => ?_⟩
      obtain rfl := List.mem_singleton.1 ht
      rw [firstEmission_snoc c hs]
      exact (firstEmission_lt_iff.2 hs).trans_le (le_firstEmission_snoc c hnew.2)
    · exact hkept

/-- An extension of no linked file type. -/
def Added (store : ChunkStore) (extension : String) : Prop :=
  ∀ fileType ∈ store.fileTypes, fileType.extension ≠ extension

inductive OutputBefore (store : ChunkStore) : String → String → Prop
  | emitted {s t : FileType} (hs : s ∈ store.fileTypes) (ht : t ∈ store.fileTypes)
      (h : store.firstEmission s < store.firstEmission t) :
      OutputBefore store s.extension t.extension
  | added {s : FileType} {y : String} (hs : s ∈ store.fileTypes) (hy : store.Added y) :
      OutputBefore store s.extension y
  | bytes {x y : String} (hx : store.Added x) (hy : store.Added y)
      (h : utf8Bytes x < utf8Bytes y) : OutputBefore store x y

theorem OutputBefore.asymm (h : store.OutputBefore x y) : ¬ store.OutputBefore y x := by
  intro h'
  -- an extension is that of a linked type or an added one, and it belongs to one type only
  cases h with
  | @emitted s t hs ht h =>
    generalize hx : s.extension = x at h'
    generalize hy : t.extension = y at h'
    cases h' with
    | emitted hs' ht' h' =>
      rw [FileType.extension_injective hx, FileType.extension_injective hy] at h
      exact Nat.lt_asymm h h'
    | added _ hadded => exact hadded s hs hx
    | bytes _ hadded _ => exact hadded s hs hx
  | @added s y hs hadded =>
    generalize hx : s.extension = x at h'
    cases h' with
    | emitted hs' _ _ => exact hadded _ hs' rfl
    | added hs' _ => exact hadded _ hs' rfl
    | bytes _ hadded' _ => exact hadded' s hs hx
  | bytes hx hy h =>
    cases h' with
    | emitted hs' _ _ => exact hy _ hs' rfl
    | added hs' _ => exact hy _ hs' rfl
    | bytes _ _ h' => exact List.lt_asymm h h'

def FileBefore (store : ChunkStore) (f g : File) : Prop :=
  ∃ x y, f.extension = some x ∧ g.extension = some y ∧ store.OutputBefore x y

theorem fileBefore_ofParts_iff {text text' : String} :
    store.FileBefore (File.ofParts fileName x text) (File.ofParts fileName y text') ↔
      store.OutputBefore x y := by
  constructor
  · rintro ⟨_, _, hx, hy, h⟩
    rwa [Option.some.inj hx, Option.some.inj hy]
  · exact fun h => ⟨x, y, rfl, rfl, h⟩

theorem FileBefore.asymm {f g : File} (h : store.FileBefore f g) : ¬ store.FileBefore g f := by
  obtain ⟨x, y, hf, hg, hxy⟩ := h
  rintro ⟨y', x', hg', hf', hyx⟩
  obtain rfl := Option.some.inj (hf.symm.trans hf')
  obtain rfl := Option.some.inj (hg.symm.trans hg')
  exact hxy.asymm hyx

end ChunkStore

/-- The files of some outputs: one for each of them, in order. -/
structure Arranged (store : ChunkStore) (fileName : String) (outputs : Table String)
    (files : List File) : Prop where
  mem_iff : ∀ file, file ∈ files ↔
    ∃ x text, outputs.get? x = some text ∧ file = File.ofParts fileName x text
  ordered : files.Pairwise store.FileBefore

/-- There is only one such list, and no file stands in it twice. -/
theorem Arranged.unique (h : Arranged store fileName outputs files)
    (h' : Arranged store fileName outputs files') : files = files' := by
  have : Std.Antisymm store.FileBefore := ⟨fun _ _ hfg hgf => absurd hgf hfg.asymm⟩
  have : Std.Irrefl store.FileBefore := ⟨fun _ hf => hf.asymm hf⟩
  refine h.ordered.eq_of_mem_iff h'.ordered fun file => ?_
  rw [h.mem_iff, h'.mem_iff]

theorem arranged_outputFiles (store : ChunkStore) (fileName : String) (outputs : Table String) :
    Arranged store fileName outputs
      (outputFiles fileName (store.fileTypes.map FileType.extension) outputs) := by
  have hadded : ∀ {y}, y ∉ store.fileTypes.map FileType.extension → store.Added y :=
    fun hy t ht heq => hy (List.mem_map.2 ⟨t, ht, heq⟩)
  constructor
  · intro file
    refine ⟨mem_outputFiles, ?_⟩
    rintro ⟨x, text, htext, rfl⟩
    by_cases hx : x ∈ store.fileTypes.map FileType.extension
    · exact List.mem_append_left _ (List.mem_filterMap.2 ⟨x, hx, by rw [htext]; rfl⟩)
    · refine List.mem_append_right _ (List.mem_map.2 ⟨(x, text), ?_, rfl⟩)
      exact List.mem_filter.2 ⟨Table.mem_entries_iff.2 htext, by simpa using hx⟩
  · rw [outputFiles]
    refine List.pairwise_append.2 ⟨?_, ?_, ?_⟩
    · -- the files of linked types
      rw [List.filterMap_map]
      refine List.pairwise_filterMap.2 (store.pairwise_fileTypes.imp_of_mem ?_)
      intro s t hs ht hlt f hf g hg
      obtain ⟨text, -, rfl⟩ := Option.map_eq_some_iff.1 hf
      obtain ⟨text', -, rfl⟩ := Option.map_eq_some_iff.1 hg
      exact ChunkStore.fileBefore_ofParts_iff.2 (.emitted hs ht hlt)
    · -- the others, which stand in the order of the table
      refine List.pairwise_map.2 ((outputs.sorted.filter _).imp_of_mem ?_)
      intro e e' he he' hlt
      have hx : e.1 ∉ store.fileTypes.map FileType.extension := by
        simpa using (List.mem_filter.1 he).2
      have hy : e'.1 ∉ store.fileTypes.map FileType.extension := by
        simpa using (List.mem_filter.1 he').2
      exact ChunkStore.fileBefore_ofParts_iff.2
        (.bytes (hadded hx) (hadded hy) (utf8Bytes_lt_iff.2 hlt))
    · intro f hf g hg
      obtain ⟨x, hx, hf⟩ := List.mem_filterMap.1 hf
      obtain ⟨s, hs, rfl⟩ := List.mem_map.1 hx
      obtain ⟨text, -, rfl⟩ := Option.map_eq_some_iff.1 hf
      obtain ⟨e, he, rfl⟩ := List.mem_map.1 hg
      have hy : e.1 ∉ store.fileTypes.map FileType.extension := by
        simpa using (List.mem_filter.1 he).2
      exact ChunkStore.fileBefore_ofParts_iff.2 (.added hs (hadded hy))

/-! ## Linking with post-processors -/

variable {chunks : ChunkStore} {linked : List (FileType × String)}

def linkedTexts (linked : List (FileType × String)) : Table String :=
  Table.ofList (linked.map fun e => (e.1.extension, e.2))

theorem get?_linkedTexts (h : chunks.linkAll = .ok linked) {text : String} :
    (linkedTexts linked).get? x = some text ↔ ∃ t, t.extension = x ∧ (t, text) ∈ linked := by
  have hperm := Table.entries_ofList_perm (ChunkStore.nodup_extensions h)
  rw [← Table.mem_entries_iff, linkedTexts, hperm.mem_iff, List.mem_map]
  constructor
  · rintro ⟨⟨t, text⟩, hmem, heq⟩
    obtain ⟨rfl, rfl⟩ := Prod.mk.inj heq
    exact ⟨t, rfl, hmem⟩
  · rintro ⟨t, rfl, hmem⟩
    exact ⟨(t, text), hmem, rfl⟩

namespace Generator

theorem linkFiles_of_linkAll (h : chunks.linkAll = .ok linked) (g : Generator)
    (fileName : String) : g.linkFiles chunks fileName =
      runPostProcessors g.postProcessors (linkedTexts linked) >>= fun last =>
        .ok (outputFiles fileName (chunks.fileTypes.map FileType.extension) last) := by
  rw [linkFiles, h, ← ChunkStore.fileTypes_of_linkAll h, List.map_map]
  change runPostProcessors _ _ >>= _ = _
  rw [List.map_map]
  rfl

/-- Linked texts become files as the post-processors leave them: a generation of files fails with
the fault of the first post-processor that fails, and else comes to a file for each output. -/
theorem linkFiles_postprocessed (h : chunks.linkAll = .ok linked) (g : Generator)
    (fileName : String) :
    ∃ outputs : Table String,
      (∀ x text, outputs.get? x = some text ↔ ∃ t, t.extension = x ∧ (t, text) ∈ linked) ∧
      (∀ f, g.linkFiles chunks fileName = .error f ↔ FailsFirst g.postProcessors outputs f) ∧
      ∀ files, g.linkFiles chunks fileName = .ok files ↔
        ∃ last, Processes g.postProcessors outputs last ∧
          Arranged chunks fileName last files := by
  refine ⟨linkedTexts linked, fun x text => get?_linkedTexts h, fun f => ?_, fun files => ?_⟩
  · rw [linkFiles_of_linkAll h, bind_error_iff, ← runPostProcessors_error_iff]
    refine or_iff_left ?_
    rintro ⟨last, -, hfiles⟩
    cases hfiles
  · rw [linkFiles_of_linkAll h, bind_ok_iff]
    refine exists_congr fun last => and_congr runPostProcessors_ok_iff ⟨?_, fun hfiles => ?_⟩
    · intro hpure
      rw [← Except.ok.inj hpure]
      exact arranged_outputFiles chunks fileName last
    · rw [hfiles.unique (arranged_outputFiles chunks fileName last)]

def mapped : Generator where
  postProcessors := [
    { name := "source-map", process := fun outputs => .ok (outputs.insert "map" "\x7b\x7d") },
    { name := "notice", process := fun outputs => .ok (outputs.insert "NOTICE" "n") },
    { name := "page", process := fun outputs => .ok (outputs.erase "html") }]

theorem linkFiles_postprocessed_mapped :
    let chunks := ChunkStore.ofList [.ofText "view" .js "v", .ofText "page" .html "p",
      .ofText "style" .css "s"]
    chunks.linkAll = .ok [(.js, "v"), (.html, "p"), (.css, "s")] ∧
    ∃ outputs last, outputs.get? "html" = some "p" ∧
      Processes mapped.postProcessors outputs last ∧
      Arranged chunks "home" last [.ofParts "home" "js" "v", .ofParts "home" "css" "s",
        .ofParts "home" "NOTICE" "n", .ofParts "home" "map" "\x7b\x7d"] := by
  intro chunks
  have hlinked : chunks.linkAll = .ok [(.js, "v"), (.html, "p"), (.css, "s")] := by decide
  obtain ⟨outputs, hinitial, -, hfiles⟩ := linkFiles_postprocessed hlinked mapped "home"
  obtain ⟨last, hlast, harranged⟩ := (hfiles _).1 (show mapped.linkFiles chunks "home" = .ok _ by rfl)
  exact ⟨hlinked, outputs, last, (hinitial _ _).2 ⟨.html, rfl, by simp⟩, hlast, harranged⟩

end Generator

end Sitewright
