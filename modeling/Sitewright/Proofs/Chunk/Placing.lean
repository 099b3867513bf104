import Mathlib.Data.Fintype.Pigeonhole
import Mathlib.Data.List.Count
import Mathlib.Data.List.Nodup
import Mathlib.Logic.Relation
import Mathlib.Order.Monotone.Basic
import Sitewright.Chunk.Order

/-!
# Placing items one by one

`Settling preds rest s` holds between any two steps of a placing: the pending links of an item are
those to unplaced items, each counted as often as it is given, and those of the list `rest`, which
are about to be settled. From it follow that no count is ever taken below zero, that the ready items
are exactly those whose predecessors are placed, and that the order is eager: each item is the least
of those that could come at its turn.
-/

namespace Sitewright.LinkOrder

variable {preds : List (List Nat)} {s : Placing} {rest done : List Nat} {i j : Nat}

/-- An unplaced item whose predecessors are all placed. -/
structure IsReady (preds : List (List Nat)) (done : List Nat) (i : Nat) : Prop where
  lt : i < preds.length
  unplaced : i ∉ done
  placed : ∀ p ∈ before preds i, p ∈ done

/-- Each item of a list is ready when its turn comes. -/
def InTurn (preds : List (List Nat)) : List Nat → List Nat → Prop
  | _, [] => True
  | done, i :: rest => IsReady preds done i ∧ InTurn preds (done ++ [i]) rest

/-- Each item of a list is the least of those that are ready when its turn comes. -/
def Eager (preds : List (List Nat)) : List Nat → List Nat → Prop
  | _, [] => True
  | done, i :: rest => IsReady preds done i ∧ (∀ j, IsReady preds done j → i ≤ j) ∧
      Eager preds (done ++ [i]) rest

theorem Eager.inTurn (h : Eager preds done rest) : InTurn preds done rest := by
  induction rest generalizing done with
  | nil => trivial
  | cons i rest ih => exact ⟨h.1, ih h.2.2⟩

theorem InTurn.nodup (h : InTurn preds done rest) (hd : done.Nodup) : (done ++ rest).Nodup := by
  induction rest generalizing done with
  | nil => simpa using hd
  | cons i rest ih =>
    have hi : (done ++ [i]).Nodup := by
      simpa using List.nodup_append.2 ⟨hd, List.nodup_singleton i, by
        intro a ha b hb hab
        rw [List.mem_singleton.1 hb] at hab
        exact h.1.unplaced (hab ▸ ha)⟩
    simpa using ih h.2 hi

theorem InTurn.lt (h : InTurn preds done rest) (hi : i ∈ rest) : i < preds.length := by
  induction rest generalizing done with
  | nil => cases hi
  | cons k rest ih =>
    rcases List.mem_cons.1 hi with rfl | hi
    · exact h.1.lt
    · exact ih h.2 hi

/-- An item that is placed in turn stands behind its predecessors. -/
theorem InTurn.before_mem (h : InTurn preds done rest) {first last : List Nat}
    (hr : rest = first ++ i :: last) {p : Nat} (hp : p ∈ before preds i) : p ∈ done ++ first := by
  induction first generalizing done rest with
  | nil =>
    subst hr
    simpa using h.1.placed p hp
  | cons k first ih =>
    subst hr
    simpa using ih h.2 rfl

theorem InTurn.of_before_mem (hnodup : (done ++ rest).Nodup) (hlt : ∀ i ∈ rest, i < preds.length)
    (hbefore : ∀ first i last, rest = first ++ i :: last →
      ∀ p ∈ before preds i, p ∈ done ++ first) : InTurn preds done rest := by
  induction rest generalizing done with
  | nil => trivial
  | cons i rest ih =>
    have hi : i ∉ done := fun hd =>
      (List.nodup_append.1 hnodup).2.2 i hd i List.mem_cons_self rfl
    refine ⟨⟨hlt i List.mem_cons_self, hi, ?_⟩, ?_⟩
    · intro p hp
      simpa using hbefore [] i rest rfl p hp
    · apply ih (by simpa using hnodup) (fun k hk => hlt k (List.mem_cons_of_mem _ hk))
      intro first k last hr p hp
      simpa using hbefore (i :: first) k last (by rw [hr]; rfl) p hp

/-- An eager list comes lexicographically before every other list of its length that is in turn. -/
theorem Eager.eq_or_lex {other : List Nat} (h : Eager preds done rest)
    (ho : InTurn preds done other) (hlen : rest.length = other.length) :
    rest = other ∨ List.Lex (· < ·) rest other := by
  induction rest generalizing done other with
  | nil => exact .inl (List.length_eq_zero_iff.1 hlen.symm).symm
  | cons i rest ih =>
    cases other with
    | nil => simp at hlen
    | cons j other =>
      rcases (h.2.1 j ho.1).lt_or_eq with hlt | rfl
      · exact .inr (.rel hlt)
      · rcases ih h.2.2 ho.2 (by simpa using hlen) with rfl | hlex
        · exact .inl rfl
        · exact .inr (.cons hlex)

theorem count_flatMap_replicate (c : Nat → Nat) {l : List Nat} (hl : l.Nodup) :
    (l.flatMap fun j => List.replicate (c j) j).count i = if i ∈ l then c i else 0 := by
  induction l with
  | nil => simp
  | cons j l ih =>
    obtain ⟨hj, hl⟩ := List.nodup_cons.1 hl
    rw [List.flatMap_cons, List.count_append, ih hl, List.count_replicate]
    by_cases hij : j = i
    · subst hij
      simp [hj]
    · simp [hij, Ne.symm hij]

theorem before_eq_nil (h : ¬ i < preds.length) : before preds i = [] := by
  simp only [before, List.getD_eq_getElem?_getD]
  rw [List.getElem?_eq_none (by omega)]
  rfl

theorem count_followers : (followers preds i).count j = (before preds j).count i := by
  rw [followers, count_flatMap_replicate _ List.nodup_range]
  by_cases hj : j < preds.length
  · simp [hj]
  · simp [hj, before_eq_nil hj]

/-- How many links of an item lead to items that are not in `done`. -/
def linksLeft (preds : List (List Nat)) (done : List Nat) (i : Nat) : Nat :=
  (before preds i).countP (!done.contains ·)

theorem linksLeft_nil : linksLeft preds [] i = (before preds i).length := by
  simp [linksLeft]

theorem linksLeft_eq_zero : linksLeft preds done i = 0 ↔ ∀ p ∈ before preds i, p ∈ done := by
  simp [linksLeft, List.countP_eq_zero]

theorem linksLeft_snoc (hj : j ∉ done) :
    linksLeft preds done i = linksLeft preds (done ++ [j]) i + (before preds i).count j := by
  unfold linksLeft
  induction before preds i with
  | nil => rfl
  | cons a l ih =>
    rw [List.countP_cons, List.countP_cons, List.count_cons, ih]
    by_cases ha : a = j
    · subst ha
      simp [hj]
      omega
    · simp [ha]
      omega

namespace Placing

@[simp] theorem settle_order : (s.settle i).order = s.order := rfl

theorem settle_pending (hi : i < s.pending.length) (j : Nat) :
    (s.settle i).pending.getD j 0 =
      if j = i then s.pending.getD i 0 - 1 else s.pending.getD j 0 := by
  simp only [settle, List.getD_eq_getElem?_getD, List.getElem?_set]
  by_cases hj : i = j
  · subst hj
    simp [hi]
  · simp [hj, Ne.symm hj]

theorem mem_settle_ready :
    j ∈ (s.settle i).ready ↔ j ∈ s.ready ∨ j = i ∧ s.pending.getD i 0 - 1 = 0 := by
  by_cases h : s.pending.getD i 0 - 1 = 0
  · simp only [settle, h, if_true, List.mem_cons, and_true, or_comm]
  · simp only [settle, h, if_false, and_false, or_false]

/-- What a placing keeps while the links of `rest` are still to be settled. -/
structure Settling (preds : List (List Nat)) (rest : List Nat) (s : Placing) : Prop where
  length_pending : s.pending.length = preds.length
  pending_eq : ∀ j, s.pending.getD j 0 = linksLeft preds s.order j + rest.count j
  pending_placed : ∀ j ∈ s.order, s.pending.getD j 0 = 0
  mem_ready : ∀ j, j ∈ s.ready ↔ j < preds.length ∧ j ∉ s.order ∧ s.pending.getD j 0 = 0
  nodup_ready : s.ready.Nodup
  rest_lt : ∀ j ∈ rest, j < preds.length

theorem Settling.start (preds : List (List Nat)) : Settling preds [] (start preds) where
  length_pending := by simp [Placing.start]
  pending_eq j := by
    rw [show (Placing.start preds).order = [] from rfl, linksLeft_nil]
    simp only [Placing.start, before, List.getD_eq_getElem?_getD, List.getElem?_map]
    cases preds[j]? <;> rfl
  pending_placed j hj := by simp [Placing.start] at hj
  mem_ready j := by simp [Placing.start]
  nodup_ready := List.nodup_range.filter _
  rest_lt j hj := by cases hj

/-- A link that is about to be settled is still counted, so no count goes below zero. -/
theorem Settling.pending_pos (h : Settling preds (j :: rest) s) : 0 < s.pending.getD j 0 := by
  rw [h.pending_eq, List.count_cons_self]
  omega

theorem Settling.settle (h : Settling preds (j :: rest) s) : Settling preds rest (s.settle j) := by
  have hlt : j < preds.length := h.rest_lt j List.mem_cons_self
  have hset := settle_pending (s := s) (i := j) (by rw [h.length_pending]; exact hlt)
  have hpos := h.pending_pos
  have hplaced : j ∉ s.order := by
    intro hj
    rw [h.pending_placed j hj] at hpos
    omega
  have hready : j ∉ s.ready := by
    intro hj
    rw [((h.mem_ready j).1 hj).2.2] at hpos
    omega
  refine ⟨?_, ?_, ?_, ?_, ?_, ?_⟩
  · simpa [Placing.settle] using h.length_pending
  · intro k
    have hk := h.pending_eq k
    rw [hset, settle_order]
    by_cases hkj : k = j
    · subst hkj
      rw [List.count_cons_self] at hk
      rw [if_pos rfl]
      omega
    · rw [List.count_cons_of_ne (Ne.symm hkj)] at hk
      rw [if_neg hkj, hk]
  · intro k hk
    have hkj : k ≠ j := by rintro rfl; exact hplaced hk
    rw [hset, if_neg hkj]
    exact h.pending_placed k hk
  · intro k
    rw [mem_settle_ready, hset, settle_order]
    by_cases hkj : k = j
    · subst hkj
      simp [hready, hlt, hplaced]
    · rw [if_neg hkj, h.mem_ready]
      simp [hkj]
  · simp only [Placing.settle]
    split
    · exact List.nodup_cons.2 ⟨hready, h.nodup_ready⟩
    · exact h.nodup_ready
  · exact fun k hk => h.rest_lt k (List.mem_cons_of_mem _ hk)

theorem Settling.foldl_settle {first : List Nat} (h : Settling preds (first ++ rest) s) :
    Settling preds rest (first.foldl Placing.settle s) := by
  induction first generalizing s with
  | nil => exact h
  | cons j first ih => exact ih h.settle

theorem foldl_settle_order : (rest.foldl settle s).order = s.order := by
  induction rest generalizing s with
  | nil => rfl
  | cons j rest ih => exact ih

theorem place_order : (s.place preds i).order = s.order ++ [i] := foldl_settle_order

theorem Settling.take (h : Settling preds [] s) (hi : i ∈ s.ready) :
    Settling preds (followers preds i) (s.take i) := by
  obtain ⟨hlt, hplaced, hzero⟩ := (h.mem_ready i).1 hi
  refine ⟨h.length_pending, ?_, ?_, ?_, h.nodup_ready.erase i, ?_⟩
  · intro j
    have hj := h.pending_eq j
    rw [List.count_nil, linksLeft_snoc hplaced] at hj
    rw [count_followers]
    exact hj
  · intro j hj
    rcases List.mem_append.1 hj with hj | hj
    · exact h.pending_placed j hj
    · rw [List.mem_singleton.1 hj]
      exact hzero
  · intro j
    simp only [Placing.take, h.nodup_ready.mem_erase_iff, h.mem_ready, List.mem_append,
      List.mem_singleton, not_or]
    tauto
  · intro j hj
    by_contra hn
    have hpos := List.count_pos_iff.2 hj
    rw [count_followers, before_eq_nil hn] at hpos
    simp at hpos

theorem Settling.place (h : Settling preds [] s) (hi : i ∈ s.ready) :
    Settling preds [] (s.place preds i) := by
  apply Settling.foldl_settle
  simpa using h.take hi

/-- Between two placings, the ready items are those whose predecessors are placed. -/
theorem Settling.mem_ready_iff (h : Settling preds [] s) :
    i ∈ s.ready ↔ IsReady preds s.order i := by
  rw [h.mem_ready, h.pending_eq, List.count_nil, Nat.add_zero, linksLeft_eq_zero]
  exact ⟨fun ⟨h₁, h₂, h₃⟩ => ⟨h₁, h₂, h₃⟩, fun ⟨h₁, h₂, h₃⟩ => ⟨h₁, h₂, h₃⟩⟩

theorem Settling.run (h : Settling preds [] s) (count : Nat) :
    Settling preds [] (Placing.run preds count s) := by
  induction count generalizing s with
  | zero => exact h
  | succ count ih =>
    rw [Placing.run]
    cases hi : s.ready.min? with
    | none => exact h
    | some i => exact ih (h.place (List.min?_mem hi))

/-- A run extends the order eagerly, and it stops early only if no item is ready. -/
theorem Settling.run_eager (h : Settling preds [] s) (count : Nat) :
    ∃ rest, (Placing.run preds count s).order = s.order ++ rest ∧ Eager preds s.order rest ∧
      (rest.length = count ∨ (Placing.run preds count s).ready = []) := by
  induction count generalizing s with
  | zero => exact ⟨[], by simp [Placing.run], trivial, .inl rfl⟩
  | succ count ih =>
    rw [Placing.run]
    cases hi : s.ready.min? with
    | none => exact ⟨[], by simp, trivial, .inr (List.min?_eq_none_iff.1 hi)⟩
    | some i =>
      obtain ⟨hmem, hle⟩ := List.min?_eq_some_iff.1 hi
      obtain ⟨rest, horder, heager, hend⟩ := ih (h.place hmem)
      rw [place_order] at horder heager
      refine ⟨i :: rest, by simpa using horder, ⟨?_, ?_, heager⟩, ?_⟩
      · exact h.mem_ready_iff.1 hmem
      · exact fun j hj => hle j (h.mem_ready_iff.2 hj)
      · simpa using hend

end Placing

open Placing

theorem settling_placing : Settling preds [] (placing preds) := (Settling.start preds).run _

theorem eager_placing : Eager preds [] (placing preds).order := by
  obtain ⟨rest, horder, heager, -⟩ := (Settling.start preds).run_eager preds.length
  rw [placing, horder]
  simpa [start] using heager

theorem nodup_placing : (placing preds).order.Nodup := by
  simpa using eager_placing.inTurn.nodup List.nodup_nil

theorem placing_lt (hi : i ∈ (placing preds).order) : i < preds.length :=
  eager_placing.inTurn.lt hi

theorem placing_subset_range : (placing preds).order ⊆ List.range preds.length :=
  fun _ hi => List.mem_range.2 (placing_lt hi)

theorem length_placing_le : (placing preds).order.length ≤ preds.length := by
  simpa using (nodup_placing.subperm placing_subset_range).length_le

theorem placing_perm (h : preds.length ≤ (placing preds).order.length) :
    (placing preds).order.Perm (List.range preds.length) :=
  (nodup_placing.subperm placing_subset_range).perm_of_length_le (by simpa using h)

/-- As many steps as there are items suffice. -/
theorem ready_placing : (placing preds).ready = [] := by
  obtain ⟨rest, horder, -, hend⟩ := (Settling.start preds).run_eager preds.length
  refine hend.elim (fun hlen => ?_) id
  have hall : (placing preds).order.Perm (List.range preds.length) :=
    placing_perm (by rw [placing, horder]; simp [hlen, start])
  refine List.eq_nil_iff_forall_not_mem.2 fun i hi => ?_
  obtain ⟨hlt, hplaced, -⟩ := (settling_placing.mem_ready i).1 hi
  exact hplaced (hall.mem_iff.2 (List.mem_range.2 hlt))

/-- Where each member of a list is related to a member, every way through the list comes back to
where it has been. -/
theorem exists_circle {R : Nat → Nat → Prop} {l : List Nat} (h : ∀ i ∈ l, ∃ j ∈ l, R i j) (hi : i ∈ l) :
    ∃ j, Relation.TransGen R j j ∧ Relation.ReflTransGen R i j := by
  choose next hnext hR using h
  let way : Nat → { i // i ∈ l } := fun n =>
    (fun i : { i // i ∈ l } => ⟨next i.1 i.2, hnext i.1 i.2⟩)^[n] ⟨i, hi⟩
  have hway (n : Nat) : R (way n).1 (way (n + 1)).1 := by
    simp only [way, Function.iterate_succ_apply']
    exact hR _ _
  have hlater {m n : Nat} (hmn : m < n) : Relation.TransGen R (way m).1 (way n).1 :=
    Nat.rel_of_forall_rel_succ_of_lt (Relation.TransGen R) (f := fun n => (way n).1)
      (fun n => .single (hway n)) hmn
  have hstart (n : Nat) : Relation.ReflTransGen R i (way n).1 := by
    rcases n.eq_zero_or_pos with rfl | hn
    · exact .refl
    · exact (hlater hn).to_reflTransGen
  obtain ⟨m, n, hne, heq⟩ := Finite.exists_ne_map_eq_of_infinite way
  rcases hne.lt_or_gt with hmn | hnm
  · exact ⟨(way m).1, by simpa [← heq] using hlater hmn, hstart m⟩
  · exact ⟨(way n).1, by simpa [heq] using hlater hnm, hstart n⟩

/-- An item that is left unplaced follows another one, and so its links lead to a circle. -/
theorem exists_circle_of_unplaced (hlt : ∀ i, ∀ p ∈ before preds i, p < preds.length)
    (hi : i < preds.length) (hnot : i ∉ (placing preds).order) :
    ∃ j, Relation.TransGen (fun i p => p ∈ before preds i) j j ∧
      Relation.ReflTransGen (fun i p => p ∈ before preds i) i j := by
  have hmem {k : Nat} : k ∈ (List.range preds.length).filter (· ∉ (placing preds).order) ↔
      k < preds.length ∧ k ∉ (placing preds).order := by simp
  refine exists_circle (fun k hk => ?_) (hmem.2 ⟨hi, hnot⟩)
  obtain ⟨hk, hnot⟩ := hmem.1 hk
  by_contra hnone
  have hready : k ∈ (placing preds).ready := by
    refine settling_placing.mem_ready_iff.2 ⟨hk, hnot, fun p hp => ?_⟩
    by_contra hplaced
    exact hnone ⟨p, hmem.2 ⟨hlt k p hp, hplaced⟩, hp⟩
  rw [ready_placing] at hready
  cases hready

/-- Everything can be placed if no item comes before itself. -/
theorem length_placing (hlt : ∀ i, ∀ p ∈ before preds i, p < preds.length)
    (hacyclic : ∀ i, ¬ Relation.TransGen (fun i p => p ∈ before preds i) i i) :
    (placing preds).order.length = preds.length := by
  have hplaced : List.range preds.length ⊆ (placing preds).order := by
    intro i hi
    by_contra hnot
    obtain ⟨j, hj, -⟩ := exists_circle_of_unplaced hlt (List.mem_range.1 hi) hnot
    exact hacyclic j hj
  exact length_placing_le.antisymm (by simpa using (List.nodup_range.subperm hplaced).length_le)

end Sitewright.LinkOrder
