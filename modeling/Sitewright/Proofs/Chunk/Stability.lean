import Sitewright.Proofs.Chunk.LinkedText
import Sitewright.Proofs.Chunk.Removal

/-!
# What the text of a file depends on

A chunk that no other chunk of its type follows has no part in the order of the others, and if it
does not emit, none in the text of the file. Of the chunks that do not emit, only their names and
their links matter to the text, and the chunks of other types do not matter at all.
-/

namespace Sitewright

/-- What a file shows of a chunk: its name, the names that it follows, and its content if that is
written. -/
def Chunk.visible (c : Chunk) : String × List String × Option Content :=
  (c.name, c.linkAfter, if c.emits then some c.content else none)

namespace ChunkStore

open LinkOrder

variable {store other : ChunkStore} {fileType : FileType} {name : String} {chunk : Chunk}
  {chunks left right : List Chunk}

theorem key_of_get? (h : store.get? fileType name = some chunk) : key chunk = (fileType, name) :=
  isAt_iff.1 (List.find?_eq_some_iff_append.1 h).1

/-- A chunk that is taken away leaves the other chunks of its type where they were. -/
theorem exists_ofType_remove (h : store.get? fileType name = some chunk) :
    ∃ front back, store.ofType fileType = front ++ chunk :: back ∧
      (store.remove fileType name).ofType fileType = front ++ back := by
  have htype : chunk.fileType = fileType := (Prod.ext_iff.1 (key_of_get? h)).1
  obtain ⟨hat, front, back, hchunks, hfront⟩ := List.find?_eq_some_iff_append.1 h
  have hremove : (store.remove fileType name).chunks = front ++ back := by
    rw [remove, hchunks, List.eraseP_append_right _ (by simpa using hfront)]
    simp [hat]
  refine ⟨front.filter (·.fileType = fileType), back.filter (·.fileType = fileType), ?_, ?_⟩
  · rw [ofType, hchunks, List.filter_append, List.filter_cons, if_pos (by simpa using htype)]
  · rw [ofType, hremove, List.filter_append]

theorem links_append_cons (front back : List Chunk) (chunk : Chunk) :
    links (front ++ chunk :: back) =
      links front ++ (chunk.name, chunk.linkAfter) :: links back := by
  rw [links, List.map_append, List.map_cons]
  rfl

/-- Taking away a chunk that no other chunk of its type follows leaves the order of the others as
it was. -/
theorem ordered_remove (hchunk : store.get? fileType name = some chunk)
    (hleaf : ∀ c ∈ (store.remove fileType name).ofType fileType, name ∉ c.linkAfter)
    (h : store.ordered fileType = .ok chunks) :
    ∃ front back, chunks = front ++ chunk :: back ∧
      (store.remove fileType name).ordered fileType = .ok (front ++ back) := by
  obtain ⟨front, back, hstore, hremove⟩ := exists_ofType_remove hchunk
  have hname : chunk.name = name := (Prod.ext_iff.1 (key_of_get? hchunk)).2
  have hlength : (links front).length = front.length := List.length_map _
  have hlinks : links front ++ links back = links (front ++ back) := List.map_append.symm
  have hleaf' : ∀ item ∈ links front ++ links back, chunk.name ∉ item.2 := by
    rw [hlinks, ← hremove, links, List.forall_mem_map, hname]
    exact hleaf
  rw [ordered, order, hstore, links_append_cons, Outcome.map_ok_iff] at h
  obtain ⟨order, horder, rfl⟩ := h
  obtain ⟨first, last, rfl, hnot, hresolve⟩ := resolve_without hleaf' horder
  rw [hlength] at hnot hresolve
  have hrest : ((first ++ last).map (closeGap front.length)).filterMap ((front ++ back)[·]?) =
      (first ++ last).filterMap ((front ++ chunk :: back)[·]?) := by
    rw [List.filterMap_map]
    refine List.filterMap_congr fun i hi => ?_
    have hne : i ≠ front.length := ne_of_mem_of_not_mem hi hnot
    rw [Function.comp_apply, ← getElem?_openGap front back chunk, openGap_closeGap hne]
  refine ⟨first.filterMap ((front ++ chunk :: back)[·]?),
    last.filterMap ((front ++ chunk :: back)[·]?), ?_, ?_⟩
  · rw [List.filterMap_append, List.filterMap_cons, hlength]
    simp
  · rw [ordered, order, hremove, ← hlinks, hresolve, ← List.filterMap_append, ← hrest]
    rfl

theorem link_of_ordered (h : store.ordered fileType = .ok chunks) :
    store.link fileType =
      ((chunks.filter (·.emits)).mapM (piece fileType)).map ("\n".intercalate ·) := by
  rw [link, h]
  change (chunks.filter (·.emits)).mapM (piece fileType) >>= _ = _
  cases (chunks.filter (·.emits)).mapM (piece fileType) with
  | error e => rfl
  | ok texts => rfl

/-- A chunk that is neither followed nor written can be left out. -/
theorem link_remove (hchunk : store.get? fileType name = some chunk)
    (hleaf : ∀ c ∈ (store.remove fileType name).ofType fileType, name ∉ c.linkAfter)
    (h : store.ordered fileType = .ok chunks) (hsilent : chunk.emits = false) :
    (store.remove fileType name).link fileType = store.link fileType := by
  obtain ⟨front, back, rfl, hremove⟩ := ordered_remove hchunk hleaf h
  rw [link_of_ordered h, link_of_ordered hremove, List.filter_append, List.filter_append,
    List.filter_cons_of_neg (by simp [hsilent])]

section Visible

theorem emits_of_visible_eq {c d : Chunk} (h : c.visible = d.visible) : c.emits = d.emits := by
  have hcontent := congrArg (·.2.2.isSome) h
  simpa [Chunk.visible, apply_ite] using hcontent

theorem piece_of_visible_eq {c d : Chunk} (h : c.visible = d.visible) (hc : c.emits = true) :
    piece fileType c = piece fileType d := by
  have hd : d.emits = true := (emits_of_visible_eq h).symm.trans hc
  simp only [Chunk.visible, hc, hd, if_true, Prod.mk.injEq, Option.some.injEq] at h
  rw [piece, piece, h.1, h.2.2]

theorem mapM_piece_of_visible_eq (h : left.map Chunk.visible = right.map Chunk.visible) :
    (left.filter (·.emits)).mapM (piece fileType) =
      (right.filter (·.emits)).mapM (piece fileType) := by
  induction left generalizing right with
  | nil =>
    obtain rfl : right = [] := by simpa using h.symm
    rfl
  | cons c left ih =>
    cases right with
    | nil => simp at h
    | cons d right =>
      obtain ⟨hcd, hrest⟩ := List.cons.inj h
      have hemits := emits_of_visible_eq hcd
      by_cases hc : c.emits = true
      · rw [List.filter_cons_of_pos hc, List.filter_cons_of_pos (hemits ▸ hc), List.mapM_cons,
          List.mapM_cons, piece_of_visible_eq hcd hc, ih hrest]
      · rw [List.filter_cons_of_neg hc, List.filter_cons_of_neg (hemits ▸ hc), ih hrest]

theorem links_of_visible_eq (h : left.map Chunk.visible = right.map Chunk.visible) :
    links left = links right := by
  have hlinks := congrArg (List.map fun v : String × List String × Option Content => (v.1, v.2.1)) h
  simpa [links, Function.comp_def, Chunk.visible] using hlinks

theorem map_visible_filterMap (order : List Nat) (chunks : List Chunk) :
    (order.filterMap (chunks[·]?)).map Chunk.visible =
      order.filterMap ((chunks.map Chunk.visible)[·]?) := by
  rw [List.map_filterMap]
  simp only [List.getElem?_map]

/-- The text of a file is made from what its chunks show of themselves, and from nothing else. -/
theorem link_of_visible_eq
    (h : (store.ofType fileType).map Chunk.visible = (other.ofType fileType).map Chunk.visible) :
    store.link fileType = other.link fileType := by
  have horder : store.order fileType = other.order fileType := by
    rw [order, order, links_of_visible_eq h]
  cases hresolve : other.order fileType with
  | error e =>
    rw [link, link, ordered, ordered, horder, hresolve]
    rfl
  | ok order =>
    have hstore : store.ordered fileType =
        .ok (order.filterMap ((store.ofType fileType)[·]?)) := by rw [ordered, horder, hresolve]; rfl
    have hother : other.ordered fileType =
        .ok (order.filterMap ((other.ofType fileType)[·]?)) := by rw [ordered, hresolve]; rfl
    rw [link_of_ordered hstore, link_of_ordered hother, mapM_piece_of_visible_eq]
    rw [map_visible_filterMap, map_visible_filterMap, h]

end Visible

/-- Taking away a chunk that no other chunk of its type follows leaves the order of the others as it
was, and so does the text if the chunk does not emit. The text, or the fault in its place, depends
on nothing but what the chunks of its type show. -/
theorem link_stable (store : ChunkStore) (fileType : FileType) :
    (∀ name chunk text, store.get? fileType name = some chunk →
      (∀ c ∈ (store.remove fileType name).ofType fileType, name ∉ c.linkAfter) →
      store.link fileType = .ok text →
      (∃ front back, store.ordered fileType = .ok (front ++ chunk :: back) ∧
        (store.remove fileType name).ordered fileType = .ok (front ++ back)) ∧
      (chunk.emits = false → (store.remove fileType name).link fileType = .ok text)) ∧
    ∀ other : ChunkStore,
      (store.ofType fileType).map Chunk.visible = (other.ofType fileType).map Chunk.visible →
      store.link fileType = other.link fileType := by
  refine ⟨fun name chunk text hchunk hleaf hlink => ?_, fun other h => link_of_visible_eq h⟩
  obtain ⟨chunks, hordered, -⟩ := Outcome.bind_ok_iff.1 hlink
  refine ⟨?_, fun hsilent => ?_⟩
  · obtain ⟨front, back, rfl, hremove⟩ := ordered_remove hchunk hleaf hordered
    exact ⟨front, back, hordered, hremove⟩
  · rw [link_remove hchunk hleaf hordered hsilent, hlink]

def marker (content : Content) : Chunk where
  name := "marker"
  fileType := .js
  content
  linkAfter := ["c"]
  isHidden := true

def marked (content : Content) (more : List Chunk) : ChunkStore :=
  ⟨[marker content, .ofText "b" .js "b", (Chunk.ofText "a" .js "a").after ["c"],
    .ofText "c" .js "c"] ++ more⟩

theorem link_stable_marked :
    (marked (.text "") []).link .js = .ok "b\nc\na" ∧
    (∃ front back, (marked (.text "") []).ordered .js = .ok (front ++ marker (.text "") :: back) ∧
      ((marked (.text "") []).remove .js "marker").ordered .js = .ok (front ++ back)) ∧
    ((marked (.text "") []).remove .js "marker").link .js = .ok "b\nc\na" ∧
    (marked (.text "") []).link .js =
      (marked (.markup { tag := "p" }) [.ofText "b" .css "b"]).link .js := by
  have htext : (marked (.text "") []).link .js = .ok "b\nc\na" := by decide +kernel
  obtain ⟨hremove, hvisible⟩ := link_stable (marked (.text "") []) .js
  obtain ⟨horder, hsilent⟩ := hremove "marker" (marker (.text "")) _ rfl (by decide) htext
  exact ⟨htext, horder, hsilent rfl, hvisible _ rfl⟩

end ChunkStore

end Sitewright
