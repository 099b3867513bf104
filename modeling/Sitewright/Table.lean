/-!
# Tables from names to values

A `Table` is a finite map whose entries are kept in the order of their names (by code point). Two
tables with the same look-ups are therefore equal, and every traversal is in name order.
-/

namespace Sitewright

/-- Put `value` under `key` into a list of entries in name order, replacing what was there. -/
def insertEntry {α : Type} (key : String) (value : α) : List (String × α) → List (String × α)
  | [] => [(key, value)]
  | (k, v) :: rest =>
    if key < k then (key, value) :: (k, v) :: rest
    else if key = k then (key, value) :: rest
    else (k, v) :: insertEntry key value rest

/-- Names increase strictly along the list, so no name occurs twice. -/
def SortedByName {α : Type} (entries : List (String × α)) : Prop :=
  entries.Pairwise fun a b => a.1 < b.1

theorem mem_insertEntry {α : Type} {key : String} {value : α} {e : String × α} :
    ∀ {entries : List (String × α)}, e ∈ insertEntry key value entries →
      e = (key, value) ∨ e ∈ entries
  | [], h => by simpa [insertEntry] using h
  | (k, v) :: rest, h => by
    unfold insertEntry at h
    split at h
    · simpa using h
    · split at h
      · rcases List.mem_cons.1 h with h | h
        · exact .inl h
        · exact .inr (List.mem_cons_of_mem _ h)
      · rcases List.mem_cons.1 h with h | h
        · exact .inr (h ▸ List.mem_cons_self)
        · exact (mem_insertEntry h).imp_right (List.mem_cons_of_mem _)

theorem SortedByName.insertEntry {α : Type} (key : String) (value : α) :
    ∀ {entries : List (String × α)}, SortedByName entries →
      SortedByName (insertEntry key value entries)
  | [], _ => by simp [Sitewright.insertEntry, SortedByName]
  | (k, v) :: rest, h => by
    obtain ⟨hk, hr⟩ := List.pairwise_cons.1 h
    unfold Sitewright.insertEntry
    split
    · next hlt =>
      refine List.pairwise_cons.2 ⟨fun e he => ?_, h⟩
      rcases List.mem_cons.1 he with rfl | he
      · exact hlt
      · exact String.lt_trans hlt (hk e he)
    · next hlt =>
      split
      · next heq => exact List.pairwise_cons.2 ⟨fun e he => heq ▸ hk e he, hr⟩
      · next hne =>
        refine List.pairwise_cons.2 ⟨fun e he => ?_, SortedByName.insertEntry key value hr⟩
        rcases mem_insertEntry he with rfl | he
        · exact Decidable.byContradiction fun hnot =>
            hne (String.le_antisymm hnot hlt)
        · exact hk e he

/-- A finite map from names to values, its entries in name order. -/
structure Table (α : Type) where
  entries : List (String × α)
  sorted : SortedByName entries
  deriving DecidableEq

namespace Table

variable {α β : Type}

@[ext] theorem ext {s t : Table α} (h : s.entries = t.entries) : s = t := by
  cases s; cases t; cases h; rfl

def empty : Table α := ⟨[], List.Pairwise.nil⟩

instance : EmptyCollection (Table α) := ⟨empty⟩

instance : Inhabited (Table α) := ⟨empty⟩

def isEmpty (t : Table α) : Bool := t.entries.isEmpty

def size (t : Table α) : Nat := t.entries.length

def keys (t : Table α) : List String := t.entries.map Prod.fst

def values (t : Table α) : List α := t.entries.map Prod.snd

def get? (t : Table α) (key : String) : Option α := t.entries.lookup key

def contains (t : Table α) (key : String) : Bool := (t.get? key).isSome

def insert (t : Table α) (key : String) (value : α) : Table α :=
  ⟨insertEntry key value t.entries, t.sorted.insertEntry key value⟩

def erase (t : Table α) (key : String) : Table α :=
  ⟨t.entries.filter (·.1 != key), t.sorted.filter _⟩

/-- Write the entries of a list one after another; the last one under a name stands. -/
def insertAll (t : Table α) (entries : List (String × α)) : Table α :=
  entries.foldl (fun s e => s.insert e.1 e.2) t

/-- The table of a list of entries; the last one under a name stands. -/
def ofList (entries : List (String × α)) : Table α := (empty : Table α).insertAll entries

/-- Lay `other` over the table, entry by entry. -/
def overlay (t other : Table α) : Table α := t.insertAll other.entries

def map (f : α → β) (t : Table α) : Table β :=
  ⟨t.entries.map fun e => (e.1, f e.2),
    (List.pairwise_map.2 (t.sorted.imp fun h => h))⟩

@[simp] theorem entries_empty : (∅ : Table α).entries = [] := rfl

@[simp] theorem entries_insert (t : Table α) (key : String) (value : α) :
    (t.insert key value).entries = insertEntry key value t.entries := rfl

@[simp] theorem entries_map (f : α → β) (t : Table α) :
    (t.map f).entries = t.entries.map fun e => (e.1, f e.2) := rfl

theorem lookup_insertEntry (key k : String) (value : α) :
    ∀ entries : List (String × α),
      (insertEntry key value entries).lookup k =
        if k = key then some value else entries.lookup k
  | [] => by
    by_cases h : k = key
    · simp [insertEntry, h]
    · simp [insertEntry, List.lookup_cons, h, beq_eq_false_iff_ne.2 h]
  | (k', v) :: rest => by
    have ih := lookup_insertEntry key k value rest
    unfold insertEntry
    split
    · by_cases h : k = key
      · simp [h]
      · simp [List.lookup_cons, h, beq_eq_false_iff_ne.2 h]
    · split
      · next h =>
        subst h
        by_cases h : k = key
        · simp [h]
        · simp [List.lookup_cons, h, beq_eq_false_iff_ne.2 h]
      · next hlt hne =>
        by_cases h : k = k'
        · subst h
          simp [Ne.symm hne]
        · simp [List.lookup_cons, beq_eq_false_iff_ne.2 h, ih]

/-- Inserting answers at its own name and leaves every other look-up as it was. -/
theorem get?_insert (t : Table α) (key k : String) (value : α) :
    (t.insert key value).get? k = if k = key then some value else t.get? k :=
  lookup_insertEntry key k value t.entries

@[simp] theorem get?_empty (k : String) : (∅ : Table α).get? k = none := rfl

theorem mem_values_of_get? {t : Table α} {key : String} {value : α}
    (h : t.get? key = some value) : value ∈ t.values := by
  obtain ⟨l₁, l₂, hl, -⟩ := List.lookup_eq_some_iff.1 h
  exact List.mem_map.2 ⟨(key, value), by rw [hl]; simp, rfl⟩

theorem mem_of_mem_insertAll {entries : List (String × α)} {e : String × α} :
    ∀ {t : Table α}, e ∈ (t.insertAll entries).entries → e ∈ t.entries ∨ e ∈ entries := by
  induction entries with
  | nil => exact fun h => .inl h
  | cons a rest ih =>
    intro t h
    rcases ih (t := t.insert a.1 a.2) h with h | h
    · rcases mem_insertEntry h with rfl | h
      · exact .inr List.mem_cons_self
      · exact .inl h
    · exact .inr (List.mem_cons_of_mem _ h)

theorem mem_of_mem_ofList {entries : List (String × α)} {e : String × α}
    (h : e ∈ (ofList entries).entries) : e ∈ entries :=
  (mem_of_mem_insertAll h).resolve_left (by simp [empty])

theorem insertEntry_of_all_lt {key : String} {value : α} :
    ∀ {entries : List (String × α)}, (∀ e ∈ entries, e.1 < key) →
      insertEntry key value entries = entries ++ [(key, value)]
  | [], _ => rfl
  | (k, v) :: rest, h => by
    have hk : k < key := h _ List.mem_cons_self
    have hne : key ≠ k := fun heq => String.lt_irrefl _ (heq ▸ hk)
    rw [insertEntry, if_neg (String.lt_asymm hk), if_neg hne,
      insertEntry_of_all_lt fun e he => h e (List.mem_cons_of_mem _ he)]
    rfl

theorem entries_insertAll_of_sorted {entries : List (String × α)} :
    ∀ {t : Table α}, SortedByName (t.entries ++ entries) →
      (t.insertAll entries).entries = t.entries ++ entries := by
  induction entries with
  | nil => intro t _; simp [insertAll]
  | cons a rest ih =>
    intro t h
    have hins : (t.insert a.1 a.2).entries = t.entries ++ [a] :=
      insertEntry_of_all_lt fun e he =>
        (List.pairwise_append.1 h).2.2 e he a List.mem_cons_self
    have := ih (t := t.insert a.1 a.2) (by rw [hins]; simpa using h)
    rw [hins] at this
    simpa [insertAll] using this

/-- A list in name order is its own table. -/
theorem entries_ofList_of_sorted {entries : List (String × α)} (h : SortedByName entries) :
    (ofList entries).entries = entries :=
  entries_insertAll_of_sorted (t := empty) h

@[simp] theorem ofList_entries (t : Table α) : ofList t.entries = t :=
  ext (entries_ofList_of_sorted t.sorted)

end Table

end Sitewright
