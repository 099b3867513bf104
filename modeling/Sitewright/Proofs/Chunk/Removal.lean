import Mathlib.Data.List.Induction
import Sitewright.Proofs.Chunk.Respecting

/-!
# Orders without an item that no other follows

Taking away the item at `k` moves the items behind it one position forward. If no other item follows
it, the items that are left are ready at the same moments as before, so a placing takes them in the
order in which it took them beside that item.
-/

namespace Sitewright.LinkOrder

variable {preds fewer : List (List Nat)} {order other done rest : List Nat} {i j k : Nat}

def closeGap (k i : Nat) : Nat := if i < k then i else i - 1

def openGap (k i : Nat) : Nat := if i < k then i else i + 1

@[simp] theorem closeGap_openGap : closeGap k (openGap k i) = i := by
  by_cases hi : i < k
  · simp [closeGap, openGap, hi]
  · simp [closeGap, openGap, hi, show ¬ i + 1 < k by omega]

theorem openGap_closeGap (hi : i ≠ k) : openGap k (closeGap k i) = i := by
  rcases hi.lt_or_gt with hi | hi
  · simp [closeGap, openGap, hi]
  · simp [closeGap, openGap, show ¬ i < k by omega, show ¬ i - 1 < k by omega,
      show i - 1 + 1 = i by omega]

theorem openGap_ne : openGap k i ≠ k := by
  unfold openGap
  split
  · omega
  · omega

theorem closeGap_le (hij : i ≤ openGap k j) : closeGap k i ≤ j := by
  unfold openGap at hij
  unfold closeGap
  split at hij
  · split
    · exact hij
    · omega
  · split
    · omega
    · omega

theorem openGap_lt (hk : k ≤ j) : openGap k i < j + 1 ↔ i < j := by
  unfold openGap
  split
  · omega
  · omega

theorem getElem?_openGap {α : Type} (front back : List α) (a : α) (i : Nat) :
    (front ++ a :: back)[openGap front.length i]? = (front ++ back)[i]? := by
  unfold openGap
  split
  · next hi => rw [List.getElem?_append_left hi, List.getElem?_append_left hi]
  · next hi =>
    have hle : front.length ≤ i := not_lt.1 hi
    rw [List.getElem?_append_right hle, List.getElem?_append_right (by omega), Nat.sub_add_comm hle,
      List.getElem?_cons_succ]

def withoutItem (k : Nat) (order : List Nat) : List Nat :=
  (order.filter (· ≠ k)).map (closeGap k)

theorem mem_withoutItem : i ∈ withoutItem k order ↔ openGap k i ∈ order := by
  simp only [withoutItem, List.mem_map, List.mem_filter, decide_eq_true_eq]
  constructor
  · rintro ⟨j, ⟨hj, hne⟩, rfl⟩
    rwa [openGap_closeGap hne]
  · exact fun hi => ⟨_, ⟨hi, openGap_ne⟩, closeGap_openGap⟩

theorem withoutItem_append :
    withoutItem k (order ++ other) = withoutItem k order ++ withoutItem k other := by
  rw [withoutItem, List.filter_append, List.map_append]
  rfl

theorem withoutItem_cons_self : withoutItem k (k :: order) = withoutItem k order := by
  simp [withoutItem]

theorem withoutItem_cons_of_ne (hi : i ≠ k) :
    withoutItem k (i :: order) = closeGap k i :: withoutItem k order := by
  simp [withoutItem, hi]

theorem withoutItem_of_notMem (hk : k ∉ order) : withoutItem k order = order.map (closeGap k) := by
  have hall : ∀ i ∈ order, decide (i ≠ k) = true := fun i hi =>
    decide_eq_true (ne_of_mem_of_not_mem hi hk)
  rw [withoutItem, List.filter_eq_self.2 hall]

/-- `fewer` are the predecessors that are left when the item at `k`, which no other item follows, is
taken away. -/
structure Removal (k : Nat) (preds fewer : List (List Nat)) : Prop where
  le_length : k ≤ fewer.length
  length_eq : preds.length = fewer.length + 1
  before_eq : ∀ i, before fewer i = (before preds (openGap k i)).map (closeGap k)
  unfollowed : ∀ i, i ≠ k → k ∉ before preds i

theorem Removal.forall_before_iff (h : Removal k preds fewer) :
    (∀ p ∈ before fewer i, p ∈ withoutItem k done) ↔
      ∀ p ∈ before preds (openGap k i), p ∈ done := by
  rw [h.before_eq, List.forall_mem_map]
  refine forall₂_congr fun p hp => ?_
  have hne : p ≠ k := ne_of_mem_of_not_mem hp (h.unfollowed _ openGap_ne)
  rw [mem_withoutItem, openGap_closeGap hne]

theorem Removal.isReady_iff (h : Removal k preds fewer) :
    IsReady fewer (withoutItem k done) i ↔ IsReady preds done (openGap k i) := by
  have hlt : openGap k i < preds.length ↔ i < fewer.length := by
    rw [h.length_eq, openGap_lt h.le_length]
  constructor
  · rintro ⟨hi, hunplaced, hplaced⟩
    exact ⟨hlt.2 hi, mem_withoutItem.not.1 hunplaced, h.forall_before_iff.1 hplaced⟩
  · rintro ⟨hi, hunplaced, hplaced⟩
    exact ⟨hlt.1 hi, mem_withoutItem.not.2 hunplaced, h.forall_before_iff.2 hplaced⟩

/-- What is placed eagerly beside the item at `k` is placed eagerly without it. -/
theorem Removal.eager (h : Removal k preds fewer) (he : Eager preds done rest) :
    Eager fewer (withoutItem k done) (withoutItem k rest) := by
  induction rest generalizing done with
  | nil => trivial
  | cons i rest ih =>
    obtain ⟨hready, hleast, hrest⟩ := he
    have hlater := ih hrest
    rw [withoutItem_append] at hlater
    by_cases hi : i = k
    · -- placing the item itself makes no other item ready
      subst hi
      rw [withoutItem_cons_self]
      simpa [withoutItem] using hlater
    · -- the same items are ready, and closing the gap keeps the least one the least
      rw [withoutItem_cons_of_ne hi] at hlater ⊢
      refine ⟨?_, fun j hj => ?_, hlater⟩
      · rw [h.isReady_iff, openGap_closeGap hi]
        exact hready
      · exact closeGap_le (hleast _ (h.isReady_iff.1 hj))

/-- An eager list goes on as every other eager list does, up to where nothing is ready. -/
theorem Eager.begins (h : Eager preds done order) (hend : ∀ i, ¬ IsReady preds (done ++ order) i)
    (ho : Eager preds done other) : other <+: order := by
  induction other generalizing done order with
  | nil => exact List.nil_prefix
  | cons j other ih =>
    cases order with
    | nil => exact absurd ho.1 (by simpa using hend j)
    | cons i order =>
      obtain rfl : i = j := (h.2.1 j ho.1).antisymm (ho.2.1 i h.1)
      exact (List.prefix_cons_inj i).2 (ih h.2.2 (by simpa using hend) ho.2.2)

theorem not_isReady_placing (i : Nat) : ¬ IsReady preds ([] ++ (placing preds).order) i := by
  intro hi
  rw [List.nil_append, ← settling_placing.mem_ready_iff, ready_placing] at hi
  cases hi

/-- The placing is the one eager list of all items. -/
theorem Eager.eq_placing (h : Eager preds [] order) (hlen : order.length = preds.length) :
    (placing preds).order = order := by
  have hbegins := eager_placing.begins not_isReady_placing h
  exact (hbegins.eq_of_length_le (by rw [hlen]; exact length_placing_le)).symm

/-- If all items can be placed, the placing without the item at `k` leaves it out of the order. -/
theorem Removal.exists_order (h : Removal k preds fewer)
    (hlen : (placing preds).order.length = preds.length) :
    ∃ first last, (placing preds).order = first ++ k :: last ∧ k ∉ first ++ last ∧
      (placing fewer).order = (first ++ last).map (closeGap k) := by
  have hall := placing_perm hlen.ge
  have hk : k ∈ (placing preds).order := by
    rw [hall.mem_iff, List.mem_range, h.length_eq]
    exact Nat.lt_succ_of_le h.le_length
  obtain ⟨first, last, hsplit⟩ := List.append_of_mem hk
  have hnodup : (placing preds).order.Nodup := nodup_placing
  rw [hsplit, List.nodup_middle, List.nodup_cons] at hnodup
  have hwithout : withoutItem k (placing preds).order = (first ++ last).map (closeGap k) := by
    rw [← withoutItem_of_notMem hnodup.1, hsplit, withoutItem_append, withoutItem_cons_self,
      withoutItem_append]
  refine ⟨first, last, hsplit, hnodup.1, Eager.eq_placing ?_ ?_⟩
  · rw [← hwithout]
    exact h.eager eager_placing
  · rw [hsplit, h.length_eq] at hlen
    simp only [List.length_append, List.length_cons, List.length_map] at hlen ⊢
    omega

section Names

variable {names : List String} {name link : String} {fileType : FileType}

theorem position?_snoc (names : List String) (last name : String) :
    position? (names ++ [last]) name =
      if last = name then some names.length else position? names name := by
  rw [position?, List.zipIdx_append, List.reverse_append, List.find?_append]
  by_cases h : last = name
  · simp [h]
  · simp [h, position?]

theorem position?_lt (h : position? names name = some i) : i < names.length := by
  obtain ⟨e, he, rfl⟩ := Option.map_eq_some_iff.1 h
  have hmem := List.mem_zipIdx_iff_getElem?.1 (List.mem_reverse.1 (List.mem_of_find?_eq_some he))
  exact (List.getElem?_eq_some_iff.1 hmem).1

theorem position?_append_cons {front : List String} (back : List String) (hne : name ≠ link) :
    position? (front ++ name :: back) link =
      (position? (front ++ back) link).map (openGap front.length) := by
  induction back using List.reverseRecOn with
  | nil =>
    rw [position?_snoc, if_neg hne, List.append_nil]
    cases hp : position? front link with
    | none => rfl
    | some p => simp [openGap, position?_lt hp]
  | append_singleton back last ih =>
    rw [← List.cons_append, ← List.append_assoc, ← List.append_assoc, position?_snoc,
      position?_snoc]
    by_cases hlast : last = link
    · have hge : ¬ front.length + back.length < front.length := by omega
      simp [hlast, openGap, hge, Nat.add_assoc]
    · rw [if_neg hlast, if_neg hlast, ih]

theorem target_append_cons {front back : List String} (hne : name ≠ link) {item : String} {p : Nat}
    (h : target fileType (front ++ name :: back) item link = .ok p) :
    target fileType (front ++ back) item link = .ok (closeGap front.length p) ∧
      p ≠ front.length := by
  rw [target_ok_iff, position?_append_cons back hne] at h
  obtain ⟨q, hq, rfl⟩ := Option.map_eq_some_iff.1 h
  rw [closeGap_openGap, target_ok_iff]
  exact ⟨hq, openGap_ne⟩

variable {front back : List (String × List String)} {item : String × List String}

theorem targets_append_cons {front back : List String} {item : String} {follows : List String}
    {links : List Nat} (hleaf : name ∉ follows)
    (h : follows.mapM (target fileType (front ++ name :: back) item) = .ok links) :
    follows.mapM (target fileType (front ++ back) item) = .ok (links.map (closeGap front.length)) ∧
      front.length ∉ links := by
  have hne {link : String} (hlink : link ∈ follows) : name ≠ link :=
    (ne_of_mem_of_not_mem hlink hleaf).symm
  constructor
  · exact Outcome.mapM_ok_map h fun link hlink p hp => (target_append_cons (hne hlink) hp).1
  · intro hmem
    obtain ⟨link, hlink, hp⟩ := (Outcome.mem_of_mapM_ok h).1 hmem
    exact (target_append_cons (hne hlink) hp).2 rfl

/-- Without an item that no other names, the others follow the same items as before. -/
theorem exists_removal (hleaf : ∀ other ∈ front ++ back, item.1 ∉ other.2)
    (hpreds : predecessors fileType (front ++ item :: back) = .ok preds) :
    ∃ fewer, predecessors fileType (front ++ back) = .ok fewer ∧
      Removal front.length preds fewer := by
  have htargets {other : String × List String} (hother : other ∈ front ++ back) {links : List Nat}
      (h : other.2.mapM (target fileType ((front ++ item :: back).map (·.1)) other.1) = .ok links) :
      other.2.mapM (target fileType ((front ++ back).map (·.1)) other.1) =
        .ok (links.map (closeGap front.length)) ∧ front.length ∉ links := by
    rw [List.map_append, List.map_cons] at h
    simpa using targets_append_cons (hleaf other hother) h
  rw [predecessors, List.mapM_append, Outcome.bind_ok_iff] at hpreds
  obtain ⟨first, hfirst, hpreds⟩ := hpreds
  rw [List.mapM_cons] at hpreds
  simp only [Outcome.bind_ok_iff] at hpreds
  obtain ⟨_, ⟨own, -, last, hlast, ⟨⟩⟩, ⟨⟩⟩ := hpreds
  have hlength : first.length = front.length := Outcome.length_of_mapM_ok hfirst
  have hothers : (front ++ back).mapM (fun other =>
      other.2.mapM (target fileType ((front ++ item :: back).map (·.1)) other.1)) =
        .ok (first ++ last) := by
    rw [List.mapM_append, hfirst, hlast]
    rfl
  have hbefore (i : Nat) : before (first ++ own :: last) (openGap front.length i) =
      before (first ++ last) i := by
    rw [before, before, List.getD_eq_getElem?_getD, List.getD_eq_getElem?_getD, ← hlength,
      getElem?_openGap]
  refine ⟨(first ++ last).map (·.map (closeGap front.length)),
    Outcome.mapM_ok_map hothers fun other hother links h => (htargets hother h).1, ?_⟩
  refine ⟨by simp [hlength], by simp [Nat.add_assoc], fun i => ?_, fun i hi hmem => ?_⟩
  · rw [hbefore, before, before, List.getD_eq_getElem?_getD, List.getD_eq_getElem?_getD,
      List.getElem?_map]
    cases (first ++ last)[i]? <;> rfl
  · rw [← openGap_closeGap hi, hbefore, before, List.getD_eq_getElem?_getD] at hmem
    cases hlinks : (first ++ last)[closeGap front.length i]? with
    | none => simp [hlinks] at hmem
    | some links =>
      rw [hlinks, Option.getD_some] at hmem
      obtain ⟨other, hother, h⟩ :=
        (Outcome.mem_of_mapM_ok hothers).1 (List.mem_of_getElem? hlinks)
      exact (htargets hother h).2 hmem

/-- Taking away an item that no other names leaves the order of the others as it was. -/
theorem resolve_without (hleaf : ∀ other ∈ front ++ back, item.1 ∉ other.2)
    (h : resolve fileType (front ++ item :: back) = .ok order) :
    ∃ first last, order = first ++ front.length :: last ∧ front.length ∉ first ++ last ∧
      resolve fileType (front ++ back) = .ok ((first ++ last).map (closeGap front.length)) := by
  obtain ⟨preds, hpreds, -⟩ := Outcome.bind_ok_iff.1 h
  obtain ⟨fewer, hfewer, hremoval⟩ := exists_removal hleaf hpreds
  have hlength : preds.length = (front ++ item :: back).length := Outcome.length_of_mapM_ok hpreds
  rw [resolve_of_predecessors hpreds] at h
  split at h
  · cases h
  · next hall =>
    cases h
    have hplaced : (placing preds).order.length = preds.length :=
      length_placing_le.antisymm (by rw [hlength]; exact not_lt.1 hall)
    obtain ⟨first, last, hsplit, hnot, hplacing⟩ := hremoval.exists_order hplaced
    refine ⟨first, last, hsplit, hnot, ?_⟩
    have hrest : (first ++ last).length = (front ++ back).length := by
      rw [hsplit, hlength] at hplaced
      simp only [List.length_append, List.length_cons] at hplaced ⊢
      omega
    rw [resolve_of_predecessors hfewer, hplacing, List.length_map, hrest, if_neg (lt_irrefl _)]

end Names

end Sitewright.LinkOrder
