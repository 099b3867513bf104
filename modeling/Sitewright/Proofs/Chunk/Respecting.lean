import Sitewright.Proofs.Chunk.Placing
import Sitewright.Proofs.Outcome

/-!
# Orders that respect links by name

Items follow each other by name. With distinct names, the resolved order exists exactly when every
name is that of an item and no item comes before itself; it then stands lexicographically before
every other order in which each item is behind those that it names.
-/

namespace Sitewright.LinkOrder

variable {fileType : FileType} {items : List (String × List String)} {preds : List (List Nat)}
  {order : List Nat}

/-- The item at `i` names the item at `j` among those that it follows. -/
def Follows (items : List (String × List String)) (i j : Nat) : Prop :=
  ∃ item target, items[i]? = some item ∧ items[j]? = some target ∧ target.1 ∈ item.2

def AllNamed (items : List (String × List String)) : Prop :=
  ∀ item ∈ items, ∀ link ∈ item.2, link ∈ items.map (·.1)

/-- No item comes, over one link or more, before itself. -/
def Acyclic (items : List (String × List String)) : Prop :=
  ∀ i, ¬ Relation.TransGen (Follows items) i i

/-- An order of all items in which each stands behind those that it names. -/
structure Respects (items : List (String × List String)) (order : List Nat) : Prop where
  perm : order.Perm (List.range items.length)
  behind : ∀ i j, Follows items i j → order.idxOf j < order.idxOf i

/-- `link` is the first name without an item among the links of the item `name`, which is the first
item with such a link. -/
def FirstMissing (items : List (String × List String)) (name link : String) : Prop :=
  ∃ front links back, items = front ++ (name, links) :: back ∧
    (∀ item ∈ front, ∀ l ∈ item.2, l ∈ items.map (·.1)) ∧
    ∃ earlier later, links = earlier ++ link :: later ∧
      (∀ l ∈ earlier, l ∈ items.map (·.1)) ∧ link ∉ items.map (·.1)

theorem position?_eq_none {names : List String} {name : String} :
    position? names name = none ↔ name ∉ names := by
  simp only [position?, Option.map_eq_none_iff, List.find?_eq_none, List.mem_reverse,
    decide_eq_true_eq]
  constructor
  · intro h hmem
    obtain ⟨i, hi⟩ := List.mem_iff_getElem?.1 hmem
    exact h (name, i) (List.mem_zipIdx_iff_getElem?.2 hi) rfl
  · rintro h e he rfl
    exact h (List.mem_of_getElem? (List.mem_zipIdx_iff_getElem?.1 he))

/-- With distinct names, the target of a link is the one item of that name. -/
theorem position?_eq_some {names : List String} (hnames : names.Nodup) {name : String} {i : Nat} :
    position? names name = some i ↔ names[i]? = some name := by
  have hsound {k : Nat} (h : position? names name = some k) : names[k]? = some name := by
    obtain ⟨e, he, rfl⟩ := Option.map_eq_some_iff.1 h
    have hmem := List.mem_zipIdx_iff_getElem?.1 (List.mem_reverse.1 (List.mem_of_find?_eq_some he))
    have hname : e.1 = name := by simpa using List.find?_some he
    rwa [hname] at hmem
  refine ⟨hsound, fun hi => ?_⟩
  cases hk : position? names name with
  | none => exact absurd (List.mem_of_getElem? hi) (position?_eq_none.1 hk)
  | some k =>
    have hlt := (List.getElem?_eq_some_iff.1 (hsound hk)).1
    rw [(List.getElem?_inj hlt hnames).1 ((hsound hk).trans hi.symm)]

theorem target_ok_iff {names : List String} {name link : String} {i : Nat} :
    target fileType names name link = .ok i ↔ position? names link = some i := by
  unfold target
  cases position? names link <;> simp

theorem exists_target_ok_iff {names : List String} {name link : String} :
    (∃ i, target fileType names name link = .ok i) ↔ link ∈ names := by
  simp only [target_ok_iff, ← Option.isSome_iff_exists, ← Option.ne_none_iff_isSome, ne_eq,
    position?_eq_none, not_not]

theorem target_error_iff {names : List String} {name link : String} {e : Fault} :
    target fileType names name link = .error e ↔
      link ∉ names ∧ e = .unresolvedLink name link fileType := by
  rw [← position?_eq_none]
  unfold target
  cases position? names link <;> simp [eq_comm]

theorem exists_predecessors_iff (fileType : FileType) :
    (∃ preds, predecessors fileType items = .ok preds) ↔ AllNamed items := by
  simp only [predecessors, Outcome.exists_mapM_ok_iff, exists_target_ok_iff, AllNamed]

theorem predecessors_error_iff {e : Fault} :
    predecessors fileType items = .error e ↔
      ∃ name link, FirstMissing items name link ∧ e = .unresolvedLink name link fileType := by
  simp only [predecessors, Outcome.mapM_error_iff, Outcome.exists_mapM_ok_iff,
    exists_target_ok_iff, target_error_iff]
  constructor
  · rintro ⟨front, ⟨name, links⟩, back, hitems, hfront, earlier, link, later, hl, he, hlink, rfl⟩
    exact ⟨name, link, ⟨front, links, back, hitems, hfront, earlier, later, hl, he, hlink⟩, rfl⟩
  · rintro ⟨name, link, ⟨front, links, back, hitems, hfront, earlier, later, hl, he, hlink⟩, rfl⟩
    exact ⟨front, (name, links), back, hitems, hfront, earlier, link, later, hl, he, hlink, rfl⟩

theorem mem_before_iff (hnames : (items.map (·.1)).Nodup)
    (hpreds : predecessors fileType items = .ok preds) {i j : Nat} :
    j ∈ before preds i ↔ Follows items i j := by
  have hlinks {item : String × List String} {links : List Nat}
      (h : item.2.mapM (target fileType (items.map (·.1)) item.1) = .ok links) :
      j ∈ links ↔ ∃ link ∈ item.2, (items.map (·.1))[j]? = some link := by
    simp only [Outcome.mem_of_mapM_ok h, target_ok_iff, position?_eq_some hnames]
  simp only [before, List.getD_eq_getElem?_getD, Follows]
  constructor
  · intro hj
    cases hl : preds[i]? with
    | none => simp [hl] at hj
    | some links =>
      obtain ⟨item, hitem, hmap⟩ := (Outcome.getElem?_of_mapM_ok hpreds).1 hl
      rw [hl, Option.getD_some, hlinks hmap] at hj
      obtain ⟨link, hlink, htarget⟩ := hj
      rw [List.getElem?_map] at htarget
      obtain ⟨other, hother, rfl⟩ := Option.map_eq_some_iff.1 htarget
      exact ⟨item, other, hitem, hother, hlink⟩
  · rintro ⟨item, other, hitem, hother, hlink⟩
    have hlt : i < preds.length := by
      rw [Outcome.length_of_mapM_ok hpreds]
      exact (List.getElem?_eq_some_iff.1 hitem).1
    obtain ⟨item', hitem', hmap⟩ :=
      (Outcome.getElem?_of_mapM_ok hpreds).1 (List.getElem?_eq_getElem hlt)
    obtain rfl := Option.some.inj (hitem.symm.trans hitem')
    rw [List.getElem?_eq_getElem hlt, Option.getD_some, hlinks hmap]
    exact ⟨other.1, hlink, by rw [List.getElem?_map, hother]; rfl⟩

theorem Follows.lt {i j : Nat} (h : Follows items i j) : j < items.length := by
  obtain ⟨_, _, _, hj, _⟩ := h
  exact (List.getElem?_eq_some_iff.1 hj).1

theorem Follows.lt_left {i j : Nat} (h : Follows items i j) : i < items.length := by
  obtain ⟨_, _, hi, _⟩ := h
  exact (List.getElem?_eq_some_iff.1 hi).1

theorem idxOf_append_cons {front back : List Nat} {i : Nat} (hi : i ∉ front) :
    (front ++ i :: back).idxOf i = front.length := by
  rw [List.idxOf_append_of_notMem hi, List.idxOf_cons_self, Nat.add_zero]

theorem InTurn.idxOf_lt (h : InTurn preds [] order) {i p : Nat} (hi : i ∈ order)
    (hp : p ∈ before preds i) : p ∈ order ∧ order.idxOf p < order.idxOf i := by
  have hnodup : order.Nodup := by simpa using h.nodup List.nodup_nil
  obtain ⟨front, back, rfl⟩ := List.append_of_mem hi
  have hif : i ∉ front := fun hi =>
    (List.nodup_append.1 hnodup).2.2 i hi i List.mem_cons_self rfl
  have hpf : p ∈ front := by simpa using h.before_mem rfl hp
  rw [idxOf_append_cons hif, List.idxOf_append_of_mem hpf]
  exact ⟨List.mem_append_left _ hpf, List.idxOf_lt_length_of_mem hpf⟩

/-- An order respects the links exactly when all its items come in turn. -/
theorem respects_iff_inTurn (hnames : (items.map (·.1)).Nodup)
    (hpreds : predecessors fileType items = .ok preds) :
    Respects items order ↔ InTurn preds [] order ∧ order.length = preds.length := by
  have hlen : preds.length = items.length := Outcome.length_of_mapM_ok hpreds
  constructor
  · rintro ⟨hperm, hbehind⟩
    have hnodup : order.Nodup := hperm.nodup_iff.2 List.nodup_range
    refine ⟨?_, by simpa [hlen] using hperm.length_eq⟩
    apply InTurn.of_before_mem (by simpa using hnodup)
    · intro i hi
      rw [hlen]
      exact List.mem_range.1 (hperm.mem_iff.1 hi)
    · rintro front i back rfl p hp
      have hi : i ∉ front := fun hi =>
        (List.nodup_append.1 hnodup).2.2 i hi i List.mem_cons_self rfl
      have hlt := hbehind i p ((mem_before_iff hnames hpreds).1 hp)
      rw [idxOf_append_cons hi] at hlt
      by_contra hpf
      rw [List.idxOf_append_of_notMem (by simpa using hpf)] at hlt
      omega
  · rintro ⟨hturn, hcount⟩
    have hnodup : order.Nodup := by simpa using hturn.nodup List.nodup_nil
    have hsub : order ⊆ List.range items.length := fun i hi => by
      rw [List.mem_range, ← hlen]
      exact hturn.lt hi
    have hperm : order.Perm (List.range items.length) :=
      (hnodup.subperm hsub).perm_of_length_le (by simp [hcount, hlen])
    refine ⟨hperm, fun i j hij => ?_⟩
    have hi : i ∈ order := hperm.mem_iff.2 (List.mem_range.2 hij.lt_left)
    exact (hturn.idxOf_lt hi ((mem_before_iff hnames hpreds).2 hij)).2

theorem Respects.acyclic (h : Respects items order) : Acyclic items := by
  have hlt {i j : Nat} (hij : Relation.TransGen (Follows items) i j) :
      order.idxOf j < order.idxOf i := by
    induction hij with
    | single hij => exact h.behind _ _ hij
    | tail _ hjk ih => exact (h.behind _ _ hjk).trans ih
  exact fun i hi => (hlt hi).false

theorem resolve_of_predecessors (hpreds : predecessors fileType items = .ok preds) :
    resolve fileType items =
      if (placing preds).order.length < items.length then
        .error (.linkCycle fileType ((onCircle preds).filterMap fun i => (items[i]?).map (·.1)))
      else .ok (placing preds).order := by
  rw [resolve, hpreds]
  rfl

theorem length_placing_eq_iff (hnames : (items.map (·.1)).Nodup)
    (hpreds : predecessors fileType items = .ok preds) :
    (placing preds).order.length = items.length ↔ Acyclic items := by
  have hlen : preds.length = items.length := Outcome.length_of_mapM_ok hpreds
  constructor
  · intro h
    exact Respects.acyclic ((respects_iff_inTurn hnames hpreds).2
      ⟨eager_placing.inTurn, h.trans hlen.symm⟩)
  · intro h
    rw [← hlen]
    apply length_placing
    · intro i p hp
      rw [hlen]
      exact ((mem_before_iff hnames hpreds).1 hp).lt
    · intro i hi
      simp only [mem_before_iff hnames hpreds] at hi
      exact h i hi

theorem resolve_ok_iff (hnames : (items.map (·.1)).Nodup)
    (hpreds : predecessors fileType items = .ok preds) :
    resolve fileType items = .ok order ↔ Acyclic items ∧ order = (placing preds).order := by
  have hle : (placing preds).order.length ≤ items.length := by
    rw [← Outcome.length_of_mapM_ok hpreds]
    exact length_placing_le
  rw [resolve_of_predecessors hpreds, ← length_placing_eq_iff hnames hpreds]
  by_cases h : (placing preds).order.length < items.length
  · rw [if_pos h]
    simp [h.ne]
  · rw [if_neg h]
    simp [hle.antisymm (not_lt.1 h), eq_comm]

theorem exists_resolve_ok_iff (fileType : FileType) (hnames : (items.map (·.1)).Nodup) :
    (∃ order, resolve fileType items = .ok order) ↔ AllNamed items ∧ Acyclic items := by
  rw [← exists_predecessors_iff fileType]
  constructor
  · rintro ⟨order, horder⟩
    obtain ⟨preds, hpreds, -⟩ := Outcome.bind_ok_iff.1 horder
    exact ⟨⟨preds, hpreds⟩, ((resolve_ok_iff hnames hpreds).1 horder).1⟩
  · rintro ⟨⟨preds, hpreds⟩, hacyclic⟩
    exact ⟨_, (resolve_ok_iff hnames hpreds).2 ⟨hacyclic, rfl⟩⟩

theorem respects_of_resolve (hnames : (items.map (·.1)).Nodup)
    (h : resolve fileType items = .ok order) : Respects items order := by
  obtain ⟨preds, hpreds, -⟩ := Outcome.bind_ok_iff.1 h
  obtain ⟨hacyclic, rfl⟩ := (resolve_ok_iff hnames hpreds).1 h
  refine (respects_iff_inTurn hnames hpreds).2 ⟨eager_placing.inTurn, ?_⟩
  rw [(length_placing_eq_iff hnames hpreds).2 hacyclic, Outcome.length_of_mapM_ok hpreds]

theorem resolve_least (hnames : (items.map (·.1)).Nodup) (h : resolve fileType items = .ok order)
    {other : List Nat} (hother : Respects items other) :
    order = other ∨ List.Lex (· < ·) order other := by
  have hperm := (respects_of_resolve hnames h).perm.trans hother.perm.symm
  obtain ⟨preds, hpreds, -⟩ := Outcome.bind_ok_iff.1 h
  obtain ⟨-, rfl⟩ := (resolve_ok_iff hnames hpreds).1 h
  exact eager_placing.eq_or_lex ((respects_iff_inTurn hnames hpreds).1 hother).1 hperm.length_eq

theorem resolve_unresolved_iff {e : Fault} (hmissing : ¬ AllNamed items) :
    resolve fileType items = .error e ↔
      ∃ name link, FirstMissing items name link ∧ e = .unresolvedLink name link fileType := by
  rw [← predecessors_error_iff]
  refine ⟨fun h => ?_, fun h => by rw [resolve, h]; rfl⟩
  rcases Outcome.bind_error_iff.1 h with h | ⟨preds, hpreds, -⟩
  · exact h
  · exact absurd ((exists_predecessors_iff fileType).1 ⟨preds, hpreds⟩) hmissing

theorem resolve_of_not_acyclic (hnames : (items.map (·.1)).Nodup)
    (hpreds : predecessors fileType items = .ok preds) (hcycle : ¬ Acyclic items) :
    resolve fileType items =
      .error (.linkCycle fileType ((onCircle preds).filterMap fun i => (items[i]?).map (·.1))) := by
  have hle : (placing preds).order.length ≤ items.length := by
    rw [← Outcome.length_of_mapM_ok hpreds]
    exact length_placing_le
  have hne := (length_placing_eq_iff hnames hpreds).not.2 hcycle
  rw [resolve_of_predecessors hpreds, if_pos (lt_of_le_of_ne hle hne)]

theorem resolve_linkCycle (hnames : (items.map (·.1)).Nodup) (hnamed : AllNamed items)
    (hcycle : ¬ Acyclic items) :
    ∃ names, resolve fileType items = .error (.linkCycle fileType names) := by
  obtain ⟨preds, hpreds⟩ := (exists_predecessors_iff fileType).2 hnamed
  exact ⟨_, resolve_of_not_acyclic hnames hpreds hcycle⟩

end Sitewright.LinkOrder
