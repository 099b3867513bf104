import Sitewright.Chunk.Store
import Sitewright.Proofs.Chunk.Respecting

/-!
# Circles of links

Placing leaves the items whose links lead to a circle. Of these, dropping over and over what no
other remaining item follows leaves the items that stand between circles: some circle comes before
them and some circle after them. An item on a circle is one of them, but so is an item on the way
from one circle to another, which itself may be on no circle.
-/

namespace Sitewright

open Relation (TransGen ReflTransGen)

namespace LinkOrder

variable {fileType : FileType} {items : List (String × List String)} {preds : List (List Nat)}
  {l : List Nat} {i j : Nat}

/-- The item at `i` comes, over one link or more, before itself. -/
def OnCircle (items : List (String × List String)) (i : Nat) : Prop :=
  TransGen (Follows items) i i

/-- The links of the item at `i` lead to a circle, and the links of a circle lead to the item. -/
structure BetweenCircles (items : List (String × List String)) (i : Nat) : Prop where
  leads : ∃ j, OnCircle items j ∧ ReflTransGen (Follows items) i j
  reached : ∃ j, OnCircle items j ∧ ReflTransGen (Follows items) j i

theorem OnCircle.betweenCircles (h : OnCircle items i) : BetweenCircles items i :=
  ⟨⟨i, h, .refl⟩, ⟨i, h, .refl⟩⟩

theorem OnCircle.notMem_placing (hnames : (items.map (·.1)).Nodup)
    (hpreds : predecessors fileType items = .ok preds) (h : OnCircle items i) :
    i ∉ (placing preds).order := by
  intro hi
  -- each link leads to an earlier place of the order, and the circle back to where it began
  have hbehind {k : Nat} (hk : TransGen (Follows items) i k) :
      k ∈ (placing preds).order ∧ (placing preds).order.idxOf k < (placing preds).order.idxOf i := by
    induction hk with
    | single hk =>
      exact eager_placing.inTurn.idxOf_lt hi ((mem_before_iff hnames hpreds).2 hk)
    | tail _ hk ih =>
      obtain ⟨hmem, hlt⟩ :=
        eager_placing.inTurn.idxOf_lt ih.1 ((mem_before_iff hnames hpreds).2 hk)
      exact ⟨hmem, hlt.trans ih.2⟩
  exact (hbehind h).2.false

/-- Placing leaves exactly the items whose links lead to a circle. -/
theorem notMem_placing_iff (hnames : (items.map (·.1)).Nodup)
    (hpreds : predecessors fileType items = .ok preds) :
    i < preds.length ∧ i ∉ (placing preds).order ↔
      ∃ j, OnCircle items j ∧ ReflTransGen (Follows items) i j := by
  have hlen : preds.length = items.length := Outcome.length_of_mapM_ok hpreds
  constructor
  · rintro ⟨hi, hnot⟩
    have hfollows : (fun i p => p ∈ before preds i) = Follows items :=
      funext₂ fun _ _ => propext (mem_before_iff hnames hpreds)
    have hlt : ∀ k, ∀ p ∈ before preds k, p < preds.length := by
      intro k p hp
      rw [hlen]
      exact ((mem_before_iff hnames hpreds).1 hp).lt
    have hcircle := exists_circle_of_unplaced hlt hi hnot
    rwa [hfollows] at hcircle
  · rintro ⟨j, hj, hij⟩
    induction hij using ReflTransGen.head_induction_on with
    | refl =>
      obtain ⟨k, hjk, -⟩ := TransGen.head'_iff.1 hj
      exact ⟨hlen ▸ hjk.lt_left, hj.notMem_placing hnames hpreds⟩
    | @head i k hik _ ih =>
      refine ⟨hlen ▸ hik.lt_left, fun hi => ih.2 ?_⟩
      exact (eager_placing.inTurn.idxOf_lt hi ((mem_before_iff hnames hpreds).2 hik)).1

theorem mem_withFollowers :
    i ∈ withFollowers preds l ↔ i ∈ l ∧ ∃ j ∈ l, i ∈ before preds j := by
  simp [withFollowers]

theorem prune_sublist (preds : List (List Nat)) (count : Nat) (l : List Nat) :
    (prune preds count l).Sublist l := by
  induction count generalizing l with
  | zero => exact List.Sublist.refl l
  | succ count ih => exact (ih _).trans List.filter_sublist

theorem prune_of_fixed (h : withFollowers preds l = l) (count : Nat) : prune preds count l = l := by
  induction count with
  | zero => rfl
  | succ count ih => rw [prune, h, ih]

/-- As many rounds as there are items leave nothing to drop. -/
theorem withFollowers_prune {count : Nat} (hcount : l.length ≤ count) :
    withFollowers preds (prune preds count l) = prune preds count l := by
  induction count generalizing l with
  | zero =>
    rw [List.length_eq_zero_iff.1 (Nat.le_zero.1 hcount)]
    rfl
  | succ count ih =>
    rw [prune]
    by_cases hfixed : withFollowers preds l = l
    · rw [hfixed, prune_of_fixed hfixed, hfixed]
    · have hle : (withFollowers preds l).length ≤ l.length := List.length_filter_le _ _
      have hne : (withFollowers preds l).length ≠ l.length := fun h =>
        hfixed (List.filter_sublist.eq_of_length h)
      exact ih (by omega)

/-- What is followed by its own kind is never dropped. -/
theorem mem_prune_of_followed {kept : Nat → Prop} (hl : ∀ i, kept i → i ∈ l)
    (hkept : ∀ i, kept i → ∃ j, kept j ∧ i ∈ before preds j) (count : Nat) (hi : kept i) :
    i ∈ prune preds count l := by
  induction count generalizing l with
  | zero => exact hl i hi
  | succ count ih =>
    refine ih fun k hk => ?_
    obtain ⟨j, hj, hbefore⟩ := hkept k hk
    exact mem_withFollowers.2 ⟨hl k hk, j, hl j hj, hbefore⟩

theorem BetweenCircles.exists_follower (h : BetweenCircles items i) :
    ∃ j, BetweenCircles items j ∧ Follows items j i := by
  obtain ⟨⟨c, hc, hic⟩, d, hd, hdi⟩ := h
  rcases ReflTransGen.cases_tail hdi with rfl | ⟨j, hdj, hji⟩
  · obtain ⟨j, hij, hji⟩ := TransGen.tail'_iff.1 hd
    exact ⟨j, ⟨⟨c, hc, .head hji hic⟩, ⟨i, hd, hij⟩⟩, hji⟩
  · exact ⟨j, ⟨⟨c, hc, .head hji hic⟩, ⟨d, hd, hdj⟩⟩, hji⟩

theorem withFollowers_onCircle : withFollowers preds (onCircle preds) = onCircle preds :=
  withFollowers_prune (by simpa using List.length_filter_le _ (List.range preds.length))

theorem onCircle_sublist : (onCircle preds).Sublist (List.range preds.length) :=
  (prune_sublist _ _ _).trans List.filter_sublist

/-- The items left by dropping are those between circles. -/
theorem mem_onCircle_iff (hnames : (items.map (·.1)).Nodup)
    (hpreds : predecessors fileType items = .ok preds) :
    i ∈ onCircle preds ↔ BetweenCircles items i := by
  have hunplaced {k : Nat} : k ∈ (List.range preds.length).filter
      (fun i => 0 < (placing preds).pending.getD i 0) ↔
        ∃ j, OnCircle items j ∧ ReflTransGen (Follows items) k j := by
    rw [← notMem_placing_iff hnames hpreds, List.mem_filter, List.mem_range]
    refine and_congr_right fun hk => ?_
    have hready : k ∈ (placing preds).ready ↔ _ := settling_placing.mem_ready k
    rw [ready_placing] at hready
    constructor
    · intro hpending hplaced
      rw [settling_placing.pending_placed k hplaced] at hpending
      cases hpending
    · intro hplaced
      by_contra hzero
      cases hready.2 ⟨hk, hplaced, by simpa using hzero⟩
  constructor
  · intro hi
    refine ⟨hunplaced.1 ((prune_sublist _ _ _).subset hi), ?_⟩
    have hfollowed : ∀ k ∈ onCircle preds, ∃ j ∈ onCircle preds, Follows items j k := by
      intro k hk
      rw [← withFollowers_onCircle] at hk
      obtain ⟨-, j, hj, hbefore⟩ := mem_withFollowers.1 hk
      exact ⟨j, hj, (mem_before_iff hnames hpreds).1 hbefore⟩
    -- going from follower to follower among what is left must come to a circle
    obtain ⟨j, hj, hij⟩ := exists_circle (R := Function.swap (Follows items)) hfollowed hi
    exact ⟨j, Relation.transGen_swap.1 hj, Relation.reflTransGen_swap.1 hij⟩
  · intro hi
    refine mem_prune_of_followed (fun k hk => hunplaced.2 hk.leads) (fun k hk => ?_) _ hi
    obtain ⟨j, hj, hjk⟩ := hk.exists_follower
    exact ⟨j, hj, (mem_before_iff hnames hpreds).2 hjk⟩

end LinkOrder

namespace ChunkStore

open LinkOrder

/-- When the links of chunks run in a circle, the fault names the chunks between circles in the
order in which they were added, all those on a circle among them, and no chunk is left to drop. -/
theorem linkCycle_lists_between_circles (fileType : FileType) (chunks : List Chunk)
    (hnames : (chunks.map (·.name)).Nodup) (hnamed : AllNamed (links chunks))
    (hcircle : ¬ Acyclic (links chunks)) : ∃ preds listed,
      predecessors fileType (links chunks) = .ok preds ∧ onCircle preds = listed ∧
      withFollowers preds listed = listed ∧
      listed.Pairwise (· < ·) ∧ (∀ i, i ∈ listed ↔ BetweenCircles (links chunks) i) ∧
      (∀ i, OnCircle (links chunks) i → i ∈ listed) ∧
      resolve fileType (links chunks) =
        .error (.linkCycle fileType (listed.filterMap fun i => (chunks[i]?).map (·.name))) := by
  have hitems : ((links chunks).map (·.1)).Nodup := by
    rw [links, List.map_map]
    exact hnames
  obtain ⟨preds, hpreds⟩ := (exists_predecessors_iff fileType).2 hnamed
  refine ⟨preds, onCircle preds, hpreds, rfl, withFollowers_onCircle,
    List.pairwise_lt_range.sublist onCircle_sublist, fun i => mem_onCircle_iff hitems hpreds,
    fun i hi => (mem_onCircle_iff hitems hpreds).2 hi.betweenCircles, ?_⟩
  rw [resolve_of_not_acyclic hitems hpreds hcircle]
  simp [links, Function.comp_def]

/-- Two circles, and a chunk on the way from one to the other. -/
def bridged : List Chunk :=
  [(Chunk.ofText "a" .js "").after ["b"], (Chunk.ofText "b" .js "").after ["a"],
    (Chunk.ofText "bridge" .js "").after ["b"],
    (Chunk.ofText "c" .js "").after ["bridge", "d"], (Chunk.ofText "d" .js "").after ["c"]]

theorem nodup_bridged : (bridged.map (·.name)).Nodup := by decide

theorem allNamed_bridged : AllNamed (links bridged) := by
  unfold AllNamed
  decide

theorem predecessors_bridged :
    predecessors .js (links bridged) = .ok [[1], [0], [1], [2, 4], [3]] := by decide

theorem follows_bridged_iff {i j : Nat} :
    Follows (links bridged) i j ↔ j ∈ before [[1], [0], [1], [2, 4], [3]] i :=
  (mem_before_iff (by decide) predecessors_bridged).symm

theorem not_acyclic_bridged : ¬ Acyclic (links bridged) := fun h =>
  h 0 (.tail (.single (follows_bridged_iff.2 (by decide : 1 ∈ _)))
    (follows_bridged_iff.2 (by decide)))

theorem linkCycle_lists_between_circles_bridged :
    (bridged.map (·.name)).Nodup ∧ AllNamed (links bridged) ∧ ¬ Acyclic (links bridged) ∧
    resolve .js (links bridged) = .error (.linkCycle .js ["a", "b", "bridge", "c", "d"]) := by
  obtain ⟨preds, listed, hpreds, rfl, -, -, -, -, hresolve⟩ :=
    linkCycle_lists_between_circles .js bridged nodup_bridged allNamed_bridged not_acyclic_bridged
  obtain rfl := Except.ok.inj (predecessors_bridged.symm.trans hpreds)
  refine ⟨nodup_bridged, allNamed_bridged, not_acyclic_bridged, hresolve.trans ?_⟩
  decide

/-- The bridge is named among the chunks on a circle, although it is on none. -/
theorem bridge_listed_on_no_circle :
    (bridged.map (·.name)).Nodup ∧ AllNamed (links bridged) ∧ ¬ Acyclic (links bridged) ∧
    (∃ names, resolve .js (links bridged) = .error (.linkCycle .js names) ∧ "bridge" ∈ names) ∧
    (bridged[2]?).map (·.name) = some "bridge" ∧ ¬ OnCircle (links bridged) 2 := by
  refine ⟨nodup_bridged, allNamed_bridged, not_acyclic_bridged,
    ⟨["a", "b", "bridge", "c", "d"], by decide, by decide⟩, rfl, fun hcircle => ?_⟩
  have hleave {j : Nat} (h : TransGen (Follows (links bridged)) 2 j) : j = 1 ∨ j = 0 := by
    induction h with
    | single h => exact .inl (by simpa [before] using follows_bridged_iff.1 h)
    | tail _ h ih =>
      have hbefore := follows_bridged_iff.1 h
      rcases ih with rfl | rfl
      · exact .inr (by simpa [before] using hbefore)
      · exact .inl (by simpa [before] using hbefore)
  exact absurd (hleave hcircle) (by decide)

end ChunkStore

end Sitewright
