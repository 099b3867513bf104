import Mathlib.Data.List.Induction
import Mathlib.Data.List.Nodup
import Sitewright.Chunk.Store

/-!
# Chunks of a store

No two chunks of a store have both the same file type and the same name, and a look-up finds the
chunk that was added last under its key.
-/

namespace Sitewright

theorem nodup_eraseDups {α : Type} [BEq α] [LawfulBEq α] (l : List α) : l.eraseDups.Nodup := by
  induction l using List.reverseRecOn with
  | nil => exact List.nodup_nil
  | append_singleton l a ih =>
    rw [List.eraseDups_append]
    by_cases h : a ∈ l
    · simpa [List.removeAll, h] using ih
    · have hne : ∀ b ∈ l, ¬ b = a := fun b hb => ne_of_mem_of_not_mem hb h
      simpa [List.removeAll, h, List.eraseDups_cons, List.nodup_append] using ⟨ih, hne⟩

namespace ChunkStore

variable {store : ChunkStore} {chunk : Chunk} {fileType : FileType} {name : String}

/-- The stores that come about by adding and removing chunks. -/
inductive Built : ChunkStore → Prop
  | empty : Built {}
  | add {store : ChunkStore} (chunk : Chunk) : Built store → Built (store.add chunk)
  | remove {store : ChunkStore} (fileType : FileType) (name : String) :
      Built store → Built (store.remove fileType name)

def key (c : Chunk) : FileType × String := (c.fileType, c.name)

theorem isAt_iff {c : Chunk} {name : String} :
    c.isAt fileType name = true ↔ key c = (fileType, name) := by
  simp [Chunk.isAt, key]

theorem map_key_placeChunk {chunks : List Chunk} :
    (placeChunk chunk chunks).map key =
      if key chunk ∈ chunks.map key then chunks.map key else chunks.map key ++ [key chunk] := by
  induction chunks with
  | nil => simp [placeChunk]
  | cons c rest ih =>
    rw [placeChunk]
    by_cases hc : c.isAt chunk.fileType chunk.name = true
    · have hkey : key c = key chunk := isAt_iff.1 hc
      simp [hc, hkey]
    · have hkey : key chunk ≠ key c := fun h => hc (isAt_iff.2 h.symm)
      rw [if_neg hc, List.map_cons, ih]
      by_cases hmem : key chunk ∈ rest.map key
      · simp [hmem]
      · simp [hmem, hkey]

theorem Built.nodup_keys (h : store.Built) : (store.chunks.map key).Nodup := by
  induction h with
  | empty => exact List.nodup_nil
  | @add store chunk _ ih =>
    rw [show (store.add chunk).chunks = placeChunk chunk store.chunks from rfl,
      map_key_placeChunk]
    by_cases hmem : key chunk ∈ store.chunks.map key
    · rwa [if_pos hmem]
    · rw [if_neg hmem]
      exact List.nodup_append.2 ⟨ih, List.nodup_singleton _, by
        rintro a ha b hb rfl
        exact hmem (List.mem_singleton.1 hb ▸ ha)⟩
  | remove fileType name _ ih => exact ih.sublist (List.eraseP_sublist.map _)

theorem find?_placeChunk {chunks : List Chunk} :
    (placeChunk chunk chunks).find? (·.isAt fileType name) =
      if chunk.isAt fileType name then some chunk else chunks.find? (·.isAt fileType name) := by
  induction chunks with
  | nil =>
    rw [placeChunk, List.find?_cons]
    cases chunk.isAt fileType name with
    | true => rfl
    | false => rfl
  | cons c rest ih =>
    rw [placeChunk]
    by_cases hc : c.isAt chunk.fileType chunk.name = true
    · have hat : c.isAt fileType name = chunk.isAt fileType name := by
        rw [Bool.eq_iff_iff, isAt_iff, isAt_iff, isAt_iff.1 hc]
        rfl
      rw [if_pos hc, List.find?_cons, List.find?_cons, hat]
      cases chunk.isAt fileType name with
      | true => rfl
      | false => rfl
    · rw [if_neg hc, List.find?_cons, List.find?_cons, ih]
      by_cases hat : c.isAt fileType name = true
      · have hne : chunk.isAt fileType name ≠ true := fun h =>
          hc (isAt_iff.2 ((isAt_iff.1 hat).trans (isAt_iff.1 h).symm))
        simp [hat, hne]
      · simp [hat]

/-- A chunk that is added is found under its key, and every other chunk as before. -/
theorem get?_add (store : ChunkStore) (chunk : Chunk) (fileType : FileType) (name : String) :
    (store.add chunk).get? fileType name =
      if chunk.isAt fileType name then some chunk else store.get? fileType name :=
  find?_placeChunk

theorem placeChunk_of_notMem {chunks : List Chunk} (h : key chunk ∉ chunks.map key) :
    placeChunk chunk chunks = chunks ++ [chunk] := by
  induction chunks with
  | nil => rfl
  | cons c rest ih =>
    obtain ⟨hne, hrest⟩ := not_or.1 (List.mem_cons.not.1 h)
    rw [placeChunk, if_neg fun hat => hne (isAt_iff.1 hat).symm, ih hrest]
    rfl

/-- A chunk takes the place of the chunk with its key. -/
theorem placeChunk_of_mem {front : List Chunk} {old : Chunk} (back : List Chunk)
    (hfront : key chunk ∉ front.map key) (hold : key old = key chunk) :
    placeChunk chunk (front ++ old :: back) = front ++ chunk :: back := by
  induction front with
  | nil =>
    rw [List.nil_append, placeChunk, if_pos (isAt_iff.2 hold)]
    rfl
  | cons c rest ih =>
    obtain ⟨hne, hrest⟩ := not_or.1 (List.mem_cons.not.1 hfront)
    rw [List.cons_append, placeChunk, if_neg fun hat => hne (isAt_iff.1 hat).symm, ih hrest]
    rfl

theorem addAll_of_nodup {added : List Chunk} (h : ((store.chunks ++ added).map key).Nodup) :
    store.addAll added = ⟨store.chunks ++ added⟩ := by
  induction added generalizing store with
  | nil => rw [List.append_nil]; rfl
  | cons chunk rest ih =>
    have hnew : key chunk ∉ store.chunks.map key := by
      rw [List.map_append, List.nodup_append] at h
      exact fun hmem => h.2.2 _ hmem _ List.mem_cons_self rfl
    have hadd : (store.add chunk).chunks = store.chunks ++ [chunk] := placeChunk_of_notMem hnew
    have hrest : (store.add chunk).addAll rest = ⟨(store.add chunk).chunks ++ rest⟩ :=
      ih (by rwa [hadd, List.append_assoc])
    rw [hadd, List.append_assoc] at hrest
    exact hrest

theorem mem_fileTypes_iff :
    fileType ∈ store.fileTypes ↔ ∃ c ∈ store.chunks, c.emits = true ∧ c.fileType = fileType := by
  simp [fileTypes, and_assoc]

theorem nodup_fileTypes (store : ChunkStore) : store.fileTypes.Nodup := nodup_eraseDups _

end ChunkStore

end Sitewright
