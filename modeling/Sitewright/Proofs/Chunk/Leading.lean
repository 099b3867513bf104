import Sitewright.Proofs.Chunk.LinkedText
import Sitewright.Proofs.Chunk.Removal

/-!
# Chunks that come first

If each of the first chunks of a file follows only chunks before it, they stay the first ones in
link order. Whether the file links then depends on the other chunks alone: their links have to lead
to chunks of the file, and those among themselves may not run in a circle.
-/

namespace Sitewright

namespace LinkOrder

variable {preds : List (List Nat)} {order : List Nat} {i j n : Nat} {fileType : FileType}
  {front rest : List (String × List String)}

theorem eager_range' {first count : Nat} (hlt : first + count ≤ preds.length)
    (h : ∀ i < first + count, ∀ p ∈ before preds i, p < i) :
    Eager preds (List.range first) (List.range' first count) := by
  induction count generalizing first with
  | zero => trivial
  | succ count ih =>
    rw [List.range'_succ]
    refine ⟨⟨by omega, by simp, fun p hp => ?_⟩, fun j hj => ?_, ?_⟩
    · exact List.mem_range.2 (h first (by omega) p hp)
    · exact not_lt.1 fun hlt => hj.unplaced (List.mem_range.2 hlt)
    · rw [← List.range_succ]
      exact ih (by omega) fun i hi => h i (by omega)

/-- Items that follow only earlier ones are placed first. -/
theorem range_prefix_placing (hn : n ≤ preds.length) (h : ∀ i < n, ∀ p ∈ before preds i, p < i) :
    List.range n <+: (placing preds).order := by
  have heager : Eager preds (List.range 0) (List.range' 0 n) :=
    eager_range' (by omega) fun i hi => h i (by omega)
  rw [List.range_eq_range']
  exact eager_placing.begins not_isReady_placing heager

/-- Each item names only items before it. -/
def Leading (front : List (String × List String)) : Prop :=
  ∀ i (hi : i < front.length), ∀ link ∈ front[i].2, link ∈ (front.take i).map (·.1)

theorem Leading.lt_of_follows (h : Leading front) (hnames : ((front ++ rest).map (·.1)).Nodup)
    (hi : i < front.length) (hij : Follows (front ++ rest) i j) : j < i := by
  obtain ⟨item, target, hitem, htarget, hlink⟩ := hij
  rw [List.getElem?_append_left hi, List.getElem?_eq_getElem hi] at hitem
  obtain rfl := Option.some.inj hitem
  obtain ⟨k, hk⟩ := List.mem_iff_getElem?.1 (h i hi _ hlink)
  have hlt : k < i := by
    have hlength := (List.getElem?_eq_some_iff.1 hk).1
    rw [List.length_map, List.length_take] at hlength
    omega
  have hsame : ((front ++ rest).map (·.1))[k]? = ((front ++ rest).map (·.1))[j]? := by
    rw [List.map_take, List.getElem?_take_of_lt hlt] at hk
    rw [List.map_append, List.getElem?_append_left (by simp; omega), hk, ← List.map_append,
      List.getElem?_map, htarget]
    rfl
  rwa [← (List.getElem?_inj (by simp; omega) hnames).1 hsame]

theorem follows_append : Follows (front ++ rest) (front.length + i) (front.length + j) ↔
    Follows rest i j := by
  simp [Follows, List.getElem?_append_right]

theorem Leading.exists_of_follows (h : Leading front)
    (hnames : ((front ++ rest).map (·.1)).Nodup)
    (hij : Follows (front ++ rest) i (front.length + j)) :
    ∃ k, i = front.length + k ∧ Follows rest k j := by
  have hi : front.length ≤ i := by
    by_contra hi
    have hlt := h.lt_of_follows hnames (not_le.1 hi) hij
    omega
  obtain ⟨k, rfl⟩ := Nat.exists_eq_add_of_le hi
  exact ⟨k, rfl, follows_append.1 hij⟩

/-- Ways between items that end behind the front do not lead through it. -/
theorem Leading.exists_of_transGen (h : Leading front)
    (hnames : ((front ++ rest).map (·.1)).Nodup)
    (hij : Relation.TransGen (Follows (front ++ rest)) i (front.length + j)) :
    ∃ k, i = front.length + k ∧ Relation.TransGen (Follows rest) k j := by
  induction hij using Relation.TransGen.head_induction_on with
  | single hij =>
    obtain ⟨k, rfl, hk⟩ := h.exists_of_follows hnames hij
    exact ⟨k, rfl, .single hk⟩
  | head hic _ ih =>
    obtain ⟨k, rfl, hk⟩ := ih
    obtain ⟨l, rfl, hl⟩ := h.exists_of_follows hnames hic
    exact ⟨l, rfl, .head hl hk⟩

theorem Leading.lt_of_transGen (h : Leading front) (hnames : ((front ++ rest).map (·.1)).Nodup)
    (hi : i < front.length) (hij : Relation.TransGen (Follows (front ++ rest)) i j) : j < i := by
  induction hij with
  | single hij => exact h.lt_of_follows hnames hi hij
  | tail _ hjk ih => exact (h.lt_of_follows hnames (ih.trans hi) hjk).trans ih

theorem Leading.acyclic_append_iff (h : Leading front)
    (hnames : ((front ++ rest).map (·.1)).Nodup) : Acyclic (front ++ rest) ↔ Acyclic rest := by
  constructor
  · intro hall i hi
    exact hall (front.length + i) (hi.lift (front.length + ·) fun _ _ => follows_append.2)
  · intro hrest i hi
    rcases lt_or_ge i front.length with hlt | hge
    · exact (h.lt_of_transGen hnames hlt hi).false
    · obtain ⟨k, rfl⟩ := Nat.exists_eq_add_of_le hge
      obtain ⟨l, hl, hway⟩ := h.exists_of_transGen hnames hi
      obtain rfl := Nat.add_left_cancel hl
      exact hrest k hway

theorem Leading.allNamed_append_iff (h : Leading front) : AllNamed (front ++ rest) ↔
    ∀ item ∈ rest, ∀ link ∈ item.2, link ∈ (front ++ rest).map (·.1) := by
  rw [AllNamed, List.forall_mem_append]
  refine and_iff_right fun item hitem link hlink => ?_
  obtain ⟨i, hi, rfl⟩ := List.mem_iff_getElem.1 hitem
  have hsub : (front.take i).map (·.1) ⊆ (front ++ rest).map (·.1) :=
    List.map_subset _ (List.subset_append_of_subset_left rest (List.take_subset i front))
  exact hsub (h i hi link hlink)

theorem Leading.range_prefix (h : Leading front) (hnames : ((front ++ rest).map (·.1)).Nodup)
    (horder : resolve fileType (front ++ rest) = .ok order) :
    List.range front.length <+: order := by
  obtain ⟨preds, hpreds, -⟩ := Outcome.bind_ok_iff.1 horder
  obtain ⟨-, rfl⟩ := (resolve_ok_iff hnames hpreds).1 horder
  have hlength := Outcome.length_of_mapM_ok hpreds
  rw [List.length_append] at hlength
  refine range_prefix_placing (by omega) fun i hi p hp => ?_
  exact h.lt_of_follows hnames hi ((mem_before_iff hnames hpreds).1 hp)

end LinkOrder

namespace ChunkStore

open LinkOrder

variable {fileType : FileType} {store : ChunkStore} {front rest : List Chunk} {order : List Nat}
  {text : String}

theorem links_append : links (front ++ rest) = links front ++ links rest := List.map_append

theorem exists_later (h : Leading (links front))
    (hnames : ((links (front ++ rest)).map (·.1)).Nodup)
    (horder : resolve fileType (links (front ++ rest)) = .ok order) : ∃ later,
      later.Perm rest ∧ order.filterMap ((front ++ rest)[·]?) = front ++ later := by
  have hperm := order_perm (respects_of_resolve hnames horder)
  rw [links_append] at hnames horder
  obtain ⟨tail, rfl⟩ := h.range_prefix hnames horder
  have hfront : (List.range (links front).length).filterMap ((front ++ rest)[·]?) = front := by
    rw [links, List.length_map, List.filterMap_congr (g := (front[·]?)), filterMap_getElem?_range]
    exact fun i hi => List.getElem?_append_left (List.mem_range.1 hi)
  rw [List.filterMap_append, hfront] at hperm ⊢
  exact ⟨_, (List.perm_append_left_iff front).1 hperm, rfl⟩

/-- A file whose first chunks follow only one another links exactly when the links of the others
lead to chunks and run in no circle. It begins with the first chunks, and holds the others after
them. -/
theorem link_of_leading (hstore : store.ofType fileType = front ++ rest)
    (hnames : ((front ++ rest).map (·.name)).Nodup) (h : Leading (links front))
    (haccepts : ∀ c ∈ front ++ rest, fileType.accepts c.content.representation = true) :
    ((∃ text, store.link fileType = .ok text) ↔
      (∀ c ∈ rest, ∀ link ∈ c.linkAfter, link ∈ (front ++ rest).map (·.name)) ∧
        Acyclic (links rest)) ∧
    ∀ text, store.link fileType = .ok text → ∃ later, later.Perm rest ∧
      text = "\n".intercalate (((front ++ later).filter (·.emits)).map (·.content.render)) := by
  have hlinks : (links (front ++ rest)).map (·.1) = (front ++ rest).map (·.name) := List.map_map
  have hitems : ((links (front ++ rest)).map (·.1)).Nodup := by rwa [hlinks]
  have happend : ((links front ++ links rest).map (·.1)).Nodup := by rwa [← links_append]
  constructor
  · rw [exists_link_ok_iff (by rwa [hstore]), hstore, links_append, h.allNamed_append_iff,
      h.acyclic_append_iff happend, and_iff_left fun c hc _ => haccepts c hc, ← links_append,
      hlinks]
    simp [links]
  · intro text htext
    obtain ⟨order, horder, -, rfl⟩ := link_ok_iff.1 htext
    rw [hstore] at horder
    obtain ⟨later, hperm, horder⟩ := exists_later h hitems horder
    exact ⟨later, hperm, by rw [hstore, horder]⟩

end ChunkStore

end Sitewright
