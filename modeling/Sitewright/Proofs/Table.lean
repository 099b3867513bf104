import Mathlib.Data.List.Sort
import Sitewright.Table

/-!
# Look-ups in tables

What a look-up finds after a change of the whole table, and what it says about the entries.
-/

namespace Sitewright.Table

variable {α β : Type} {t : Table α} {key : String} {value : α}

theorem get?_map (f : α → β) (t : Table α) (key : String) :
    (t.map f).get? key = (t.get? key).map f := by
  rw [get?, get?, entries_map]
  induction t.entries with
  | nil => rfl
  | cons e rest ih =>
    rw [List.map_cons, List.lookup_cons, List.lookup_cons, ih]
    cases key == e.1 with
    | true => rfl
    | false => rfl

theorem nodup_keys (t : Table α) : (t.entries.map Prod.fst).Nodup := by
  refine List.pairwise_map.2 (List.Pairwise.imp ?_ t.sorted)
  intro a b hlt heq
  exact String.lt_irrefl b.1 (heq ▸ hlt)

/-- The entries are what the look-ups find. -/
theorem mem_entries_iff : (key, value) ∈ t.entries ↔ t.get? key = some value := by
  have hkeys := t.nodup_keys
  rw [get?]
  generalize t.entries = entries at hkeys
  induction entries with
  | nil => simp
  | cons e rest ih =>
    obtain ⟨hnot, hrest⟩ := List.nodup_cons.1 hkeys
    rw [List.mem_cons, List.lookup_cons]
    by_cases hk : key = e.1
    · subst hk
      have hmem : (e.1, value) ∉ rest := fun h =>
        hnot (List.mem_map.2 ⟨(e.1, value), h, rfl⟩)
      simp [hmem, Prod.ext_iff, eq_comm]
    · rw [beq_eq_false_iff_ne.2 hk]
      simpa [Prod.ext_iff, hk] using ih hrest

theorem mem_keys_iff : key ∈ t.keys ↔ ∃ value, t.get? key = some value := by
  simp only [← mem_entries_iff, keys, List.mem_map, Prod.exists, exists_and_right, exists_eq_right]

/-- The entries of a table whose names pass a test. -/
theorem get?_filter (p : String → Bool) (h : SortedByName (t.entries.filter fun e => p e.1)) :
    (Table.mk _ h).get? key = if p key then t.get? key else none := by
  refine Option.ext fun value => ?_
  rw [← mem_entries_iff, List.mem_filter, mem_entries_iff]
  by_cases hp : p key = true
  · simp [hp]
  · simp [hp]

theorem sorted_filterMap (t : Table α) (f : α → Option β) :
    SortedByName (t.entries.filterMap fun e => (f e.2).map fun b => (e.1, b)) := by
  refine List.pairwise_filterMap.2 (t.sorted.imp fun {a b} hlt e he e' he' => ?_)
  obtain ⟨-, -, rfl⟩ := Option.map_eq_some_iff.1 he
  obtain ⟨-, -, rfl⟩ := Option.map_eq_some_iff.1 he'
  exact hlt

/-- The values of a table that are left after a change of each of them. -/
theorem get?_ofList_filterMap (t : Table α) (f : α → Option β) (key : String) :
    (ofList (t.entries.filterMap fun e => (f e.2).map fun b => (e.1, b))).get? key =
      (t.get? key).bind f := by
  refine Option.ext fun value => ?_
  rw [← mem_entries_iff, entries_ofList_of_sorted (t.sorted_filterMap f), List.mem_filterMap]
  simp only [Option.map_eq_some_iff, Option.bind_eq_some_iff, Prod.exists, mem_entries_iff]
  constructor
  · rintro ⟨k, a, hget, b, hb, heq⟩
    obtain ⟨rfl, rfl⟩ := Prod.mk.inj heq
    exact ⟨a, hget, hb⟩
  · rintro ⟨a, hget, hb⟩
    exact ⟨key, a, hget, value, hb, rfl⟩

theorem insertAll_cons (t : Table α) (e : String × α) (rest : List (String × α)) :
    t.insertAll (e :: rest) = (t.insert e.1 e.2).insertAll rest := rfl

theorem insertAll_append (t : Table α) (front back : List (String × α)) :
    t.insertAll (front ++ back) = (t.insertAll front).insertAll back := List.foldl_append

theorem get?_insertAll_of_notMem {entries : List (String × α)}
    (h : key ∉ entries.map Prod.fst) : (t.insertAll entries).get? key = t.get? key := by
  induction entries generalizing t with
  | nil => rfl
  | cons e rest ih =>
    obtain ⟨hne, hrest⟩ := not_or.1 ((not_congr List.mem_cons).1 h)
    rw [insertAll_cons, ih hrest, get?_insert, if_neg hne]

theorem get?_insertAll {entries : List (String × α)} (hnodup : (entries.map Prod.fst).Nodup)
    (h : (key, value) ∈ entries) : (t.insertAll entries).get? key = some value := by
  induction entries generalizing t with
  | nil => simp at h
  | cons e rest ih =>
    obtain ⟨hnot, hnodup⟩ := List.nodup_cons.1 hnodup
    rw [insertAll_cons]
    rcases List.mem_cons.1 h with rfl | h
    · rw [get?_insertAll_of_notMem hnot, get?_insert, if_pos rfl]
    · exact ih hnodup h

/-- What a look-up finds after some entries are written one after another: the last one under its
name. -/
theorem get?_insertAll_filterMap (t : Table α) (f : β → Option (String × α))
    (items : List β) (key : String) : (t.insertAll (items.filterMap f)).get? key =
      (items.reverse.findSome? fun b => (f b).bind fun e => if e.1 = key then some e.2 else none).or
        (t.get? key) := by
  induction items generalizing t with
  | nil => rfl
  | cons b items ih =>
    rw [List.reverse_cons, List.findSome?_append, Option.or_assoc, List.filterMap_cons]
    cases hb : f b with
    | none => simpa [hb] using ih t
    | some e =>
      by_cases hkey : e.1 = key
      · simp [hb, insertAll_cons, ih, get?_insert, hkey]
      · simp [hb, insertAll_cons, ih, get?_insert, hkey, Ne.symm hkey]

theorem get?_overlay (t other : Table α) (key : String) :
    (t.overlay other).get? key = (other.get? key).or (t.get? key) := by
  cases h : other.get? key with
  | some value => exact get?_insertAll other.nodup_keys (mem_entries_iff.2 h)
  | none =>
    refine get?_insertAll_of_notMem fun hmem => ?_
    obtain ⟨⟨_, value⟩, he, rfl⟩ := List.mem_map.1 hmem
    rw [mem_entries_iff.1 he] at h
    cases h

/-- Tables with the same look-ups are equal. -/
theorem ext_get? {s t : Table α} (h : ∀ key, s.get? key = t.get? key) : s = t := by
  have : Std.Antisymm fun a b : String × α => a.1 < b.1 :=
    ⟨fun _ _ hab hba => absurd hba (String.lt_asymm hab)⟩
  have : Std.Irrefl fun a b : String × α => a.1 < b.1 := ⟨fun a => String.lt_irrefl a.1⟩
  refine ext (s.sorted.eq_of_mem_iff t.sorted fun ⟨key, value⟩ => ?_)
  rw [mem_entries_iff, mem_entries_iff, h]

theorem insertAll_perm {entries other : List (String × α)} (h : entries.Perm other)
    (hnodup : (entries.map Prod.fst).Nodup) : t.insertAll entries = t.insertAll other := by
  have hkeys := h.map Prod.fst
  apply ext_get?
  intro key
  by_cases hkey : key ∈ entries.map Prod.fst
  · obtain ⟨⟨_, value⟩, he, rfl⟩ := List.mem_map.1 hkey
    rw [get?_insertAll hnodup he, get?_insertAll (hkeys.nodup_iff.1 hnodup) (h.mem_iff.1 he)]
  · rw [get?_insertAll_of_notMem hkey, get?_insertAll_of_notMem (hkeys.mem_iff.not.1 hkey)]

/-- The order in which the entries of a table are written is of no account. -/
theorem ofList_of_perm {entries : List (String × α)} (h : entries.Perm t.entries) :
    ofList entries = t := by
  have hnodup : (entries.map Prod.fst).Nodup := (h.map Prod.fst).nodup_iff.2 t.nodup_keys
  rw [ofList, insertAll_perm h hnodup]
  exact ofList_entries t

theorem entries_ofList_perm {entries : List (String × α)}
    (hnodup : (entries.map Prod.fst).Nodup) : (ofList entries).entries.Perm entries := by
  refine (List.perm_ext_iff_of_nodup (List.Nodup.of_map _ (ofList entries).nodup_keys)
    (List.Nodup.of_map _ hnodup)).2 fun e => ⟨mem_of_mem_ofList, fun he => ?_⟩
  exact mem_entries_iff.2 (get?_insertAll hnodup he)

theorem overlay_self (t : Table α) : t.overlay t = t := by
  refine ext_get? fun key => ?_
  rw [get?_overlay]
  cases t.get? key <;> rfl

theorem overlay_twice (t other : Table α) : (t.overlay other).overlay other = t.overlay other := by
  refine ext_get? fun key => ?_
  rw [get?_overlay, get?_overlay]
  cases other.get? key <;> rfl

theorem overlay_overlay (t other : Table α) : t.overlay (t.overlay other) = t.overlay other := by
  refine ext_get? fun key => ?_
  rw [get?_overlay, get?_overlay]
  cases other.get? key with
  | some value => rfl
  | none => cases t.get? key <;> rfl

end Sitewright.Table
