import Sitewright.Chunk.Store
import Sitewright.Proofs.Chunk.Respecting
import Sitewright.Proofs.Chunk.Store

/-!
# Texts of linked chunks

The text of a file exists exactly when its chunks have an order that respects their links and each
chunk that emits has content that the file takes. It then holds the texts of these chunks, each
once, in the least such order.
-/

namespace Sitewright

namespace LinkOrder

open Placing

/-- All through a placing, the count of an item is the number of its links to unplaced items, and no
count is zero when it is taken down. -/
def CountsDown (preds : List (List Nat)) : Prop :=
  ∀ steps, (∀ i < preds.length, (run preds steps (start preds)).pending[i]? =
      some (linksLeft preds (run preds steps (start preds)).order i)) ∧
    ∀ i, (run preds steps (start preds)).ready.min? = some i →
      ∀ front j back, followers preds i = front ++ j :: back →
        0 < (front.foldl settle ((run preds steps (start preds)).take i)).pending.getD j 0

theorem countsDown (preds : List (List Nat)) : CountsDown preds := by
  intro steps
  have hs := (Settling.start preds).run steps
  refine ⟨fun i hi => ?_, fun i hmin front j back hsplit => ?_⟩
  · have hlt : i < (run preds steps (start preds)).pending.length := by
      rw [hs.length_pending]
      exact hi
    have heq := hs.pending_eq i
    rw [List.getD_eq_getElem?_getD, List.getElem?_eq_getElem hlt] at heq
    rw [List.getElem?_eq_getElem hlt]
    simpa using heq
  · have htake := hs.take (List.min?_mem hmin)
    rw [hsplit] at htake
    exact htake.foldl_settle.pending_pos

end LinkOrder

namespace ChunkStore

open LinkOrder

variable {fileType : FileType} {store : ChunkStore} {chunk : Chunk} {text : String}

theorem piece_ok_iff : piece fileType chunk = .ok text ↔
    fileType.accepts chunk.content.representation = true ∧ chunk.content.render = text := by
  rw [piece]
  by_cases h : fileType.accepts chunk.content.representation = true
  · simp [h]
  · simp [h]

theorem mapM_piece_ok_iff {chunks : List Chunk} {texts : List String} :
    chunks.mapM (piece fileType) = .ok texts ↔
      (∀ c ∈ chunks, fileType.accepts c.content.representation = true) ∧
        chunks.map (·.content.render) = texts := by
  rw [Outcome.mapM_ok_iff]
  induction chunks generalizing texts with
  | nil => cases texts <;> simp
  | cons c chunks ih =>
    cases texts with
    | nil => simp
    | cons text texts =>
      rw [List.forall₂_cons, piece_ok_iff, ih]
      simp only [List.forall_mem_cons, List.map_cons, List.cons.injEq]
      tauto

theorem filterMap_getElem?_range {α : Type} (l : List α) :
    (List.range l.length).filterMap (l[·]?) = l := by
  induction l with
  | nil => rfl
  | cons a l ih =>
    rw [List.length_cons, List.range_succ_eq_map, List.filterMap_cons, List.filterMap_map]
    simpa [Function.comp_def] using ih

theorem order_perm {chunks : List Chunk} {order : List Nat}
    (h : Respects (links chunks) order) : (order.filterMap (chunks[·]?)).Perm chunks := by
  have hlen : (links chunks).length = chunks.length := List.length_map _
  have hperm := h.perm.filterMap (chunks[·]?)
  rwa [hlen, filterMap_getElem?_range] at hperm

/-- A file has a text exactly when its chunks have an order and the contents of those that emit are
taken by its type. -/
theorem link_ok_iff : store.link fileType = .ok text ↔ ∃ order,
    resolve fileType (links (store.ofType fileType)) = .ok order ∧
    (∀ c ∈ (order.filterMap ((store.ofType fileType)[·]?)).filter (·.emits),
      fileType.accepts c.content.representation = true) ∧
    "\n".intercalate (((order.filterMap ((store.ofType fileType)[·]?)).filter (·.emits)).map
      (·.content.render)) = text := by
  simp only [link, ordered, ChunkStore.order, Outcome.bind_ok_iff, Outcome.map_ok_iff,
    mapM_piece_ok_iff]
  constructor
  · rintro ⟨_, ⟨order, horder, rfl⟩, _, ⟨hall, rfl⟩, htext⟩
    exact ⟨order, horder, hall, Except.ok.inj htext⟩
  · rintro ⟨order, horder, hall, rfl⟩
    exact ⟨_, ⟨order, horder, rfl⟩, _, ⟨hall, rfl⟩, rfl⟩

theorem link_of_resolve {chunks : List Chunk} {order : List Nat}
    (hchunks : store.ofType fileType = chunks) (horder : resolve fileType (links chunks) = .ok order)
    (haccepts : ∀ c ∈ chunks, fileType.accepts c.content.representation = true) :
    store.link fileType = .ok ("\n".intercalate
      (((order.filterMap (chunks[·]?)).filter (·.emits)).map (·.content.render))) := by
  subst hchunks
  refine link_ok_iff.2 ⟨order, horder, fun c hc => haccepts c ?_, rfl⟩
  obtain ⟨i, -, hi⟩ := List.mem_filterMap.1 (List.mem_of_mem_filter hc)
  exact List.mem_of_getElem? hi

theorem exists_link_ok_iff (hnames : ((store.ofType fileType).map (·.name)).Nodup) :
    (∃ text, store.link fileType = .ok text) ↔
      AllNamed (links (store.ofType fileType)) ∧ Acyclic (links (store.ofType fileType)) ∧
      ∀ c ∈ store.ofType fileType, c.emits = true →
        fileType.accepts c.content.representation = true := by
  have hitems : ((links (store.ofType fileType)).map (·.1)).Nodup := by
    rw [links, List.map_map]
    exact hnames
  have hemits {order : List Nat}
      (horder : resolve fileType (links (store.ofType fileType)) = .ok order) :
      (∀ c ∈ (order.filterMap ((store.ofType fileType)[·]?)).filter (·.emits),
        fileType.accepts c.content.representation = true) ↔
      ∀ c ∈ store.ofType fileType, c.emits = true →
        fileType.accepts c.content.representation = true := by
    have hperm := order_perm (respects_of_resolve hitems horder)
    simp only [List.mem_filter, hperm.mem_iff, and_imp]
  simp only [link_ok_iff]
  rw [← and_assoc, ← exists_resolve_ok_iff fileType hitems]
  constructor
  · rintro ⟨_, order, horder, hall, -⟩
    exact ⟨⟨order, horder⟩, (hemits horder).1 hall⟩
  · rintro ⟨⟨order, horder⟩, hall⟩
    exact ⟨_, order, horder, (hemits horder).2 hall, rfl⟩

/-- Chunks with distinct names have an order exactly when their links lead to chunks and run in no
circle. The order is the least of those that respect the links, a missing name is reported before a
circle, and the text of the file holds the emitting chunks in that order. -/
theorem linked_in_least_order (fileType : FileType) (chunks : List Chunk)
    (hnames : (chunks.map (·.name)).Nodup) :
    ((∃ order, resolve fileType (links chunks) = .ok order) ↔
      AllNamed (links chunks) ∧ Acyclic (links chunks)) ∧
    (∀ order, resolve fileType (links chunks) = .ok order → Respects (links chunks) order ∧
      ∀ other, Respects (links chunks) other → order = other ∨ List.Lex (· < ·) order other) ∧
    (¬ AllNamed (links chunks) → ∃ name link, FirstMissing (links chunks) name link ∧
      resolve fileType (links chunks) = .error (.unresolvedLink name link fileType)) ∧
    (AllNamed (links chunks) → ¬ Acyclic (links chunks) →
      ∃ names, resolve fileType (links chunks) = .error (.linkCycle fileType names)) ∧
    (∀ preds, predecessors fileType (links chunks) = .ok preds → CountsDown preds) ∧
    ∀ store : ChunkStore, store.ofType fileType = chunks →
      ((∃ text, store.link fileType = .ok text) ↔
        AllNamed (links chunks) ∧ Acyclic (links chunks) ∧
        ∀ c ∈ chunks, c.emits = true → fileType.accepts c.content.representation = true) ∧
      ∀ text, store.link fileType = .ok text → ∃ order,
        resolve fileType (links chunks) = .ok order ∧
        (order.filterMap (chunks[·]?)).Perm chunks ∧
        text = "\n".intercalate
          (((order.filterMap (chunks[·]?)).filter (·.emits)).map (·.content.render)) := by
  have hitems : ((links chunks).map (·.1)).Nodup := by
    rw [links, List.map_map]
    exact hnames
  refine ⟨exists_resolve_ok_iff fileType hitems, fun order horder => ?_, fun hmissing => ?_,
    resolve_linkCycle hitems, fun preds _ => countsDown preds, ?_⟩
  · exact ⟨respects_of_resolve hitems horder, fun _ => resolve_least hitems horder⟩
  · obtain ⟨e, he⟩ : ∃ e, resolve fileType (links chunks) = .error e := by
      refine (Outcome.exists_ok_or_error _).resolve_left fun hok => ?_
      exact hmissing ((exists_resolve_ok_iff fileType hitems).1 hok).1
    obtain ⟨name, link, hfirst, rfl⟩ := (resolve_unresolved_iff hmissing).1 he
    exact ⟨name, link, hfirst, he⟩
  · rintro store rfl
    refine ⟨exists_link_ok_iff hnames, fun text htext => ?_⟩
    obtain ⟨order, horder, -, rfl⟩ := link_ok_iff.1 htext
    exact ⟨order, horder, order_perm (respects_of_resolve hitems horder), rfl⟩

/-- Ties go to the chunk that was added first. -/
theorem linked_in_least_order_diamond :
    (["c", "b", "a", "d"] : List String).Nodup ∧
    resolve .js [("c", ["a"]), ("b", []), ("a", []), ("d", ["b", "c"])] = .ok [1, 2, 0, 3] ∧
    ∀ other, Respects [("c", ["a"]), ("b", []), ("a", []), ("d", ["b", "c"])] other →
      [1, 2, 0, 3] = other ∨ List.Lex (· < ·) [1, 2, 0, 3] other := by
  have hnames : (["c", "b", "a", "d"] : List String).Nodup := by decide
  have horder : resolve .js [("c", ["a"]), ("b", []), ("a", []), ("d", ["b", "c"])] =
    .ok [1, 2, 0, 3] := by decide
  refine ⟨hnames, horder, ?_⟩
  exact ((linked_in_least_order .js
    [(Chunk.ofText "c" .js "c").after ["a"], .ofText "b" .js "b", .ofText "a" .js "a",
      (Chunk.ofText "d" .js "d").after ["b", "c"]] hnames).2.1 _ horder).2

end ChunkStore

end Sitewright
