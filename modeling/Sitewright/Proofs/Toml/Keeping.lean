import Sitewright.Toml.Reader

/-!
# What later lines keep of a document

A line of a document may add keys and open tables, but it changes no string that an earlier line has
set. So the strings of a document are those that its lines give.
-/

namespace Sitewright.Toml

/-- A value has a string under a path of keys. -/
inductive HasString (v : String) : List String → Toml → Prop
  | here : HasString v [] (.string v)
  | inside {key : String} {path : List String} {origin : Origin} {entries : List (String × Toml)}
      {t : Toml} : entries.lookup key = some t → HasString v path t →
        HasString v (key :: path) (.table origin entries)

/-- A value has all strings of another one. -/
def Keeps (old new : Toml) : Prop := ∀ v path, HasString v path old → HasString v path new

/-- For all keys that there were, there are values that keep the strings. -/
def Kept (old new : List (String × Toml)) : Prop :=
  ∀ key t, old.lookup key = some t → ∃ t', new.lookup key = some t' ∧ t.Keeps t'

variable {entries entries' later : List (String × Toml)} {key : String} {path : List String}
  {value t : Toml} {origin origin' made : Origin} {elements : List Toml} {p p' : Progress}
  {s rest : List Char} {change : List (String × Toml) → Option (List (String × Toml))}
  {count : Nat}

theorem Keeps.refl (t : Toml) : t.Keeps t := fun _ _ h => h

theorem Kept.refl (entries : List (String × Toml)) : Kept entries entries :=
  fun _ t h => ⟨t, h, .refl t⟩

theorem Kept.trans (h : Kept entries entries') (h' : Kept entries' later) : Kept entries later := by
  intro key t ht
  obtain ⟨t', ht', hkeeps⟩ := h key t ht
  obtain ⟨t'', ht'', hkeeps'⟩ := h' key t' ht'
  exact ⟨t'', ht'', fun v path hv => hkeeps' v path (hkeeps v path hv)⟩

theorem Kept.table (h : Kept entries entries') :
    Keeps (.table origin entries) (.table origin' entries') := by
  intro v path hv
  cases hv with
  | inside hlookup hv =>
    obtain ⟨t', ht', hkeeps⟩ := h _ _ hlookup
    exact .inside ht' (hkeeps _ _ hv)

theorem keeps_tables : Keeps (.tables elements) t := fun _ _ h => nomatch h

/-! ## Changes of entries -/

theorem lookup_cons_eq_ite (name : String) (t : Toml) (entries : List (String × Toml))
    (k : String) : ((name, t) :: entries).lookup k =
      if k = name then some t else entries.lookup k := by
  rw [List.lookup_cons]
  split
  · next hk => rw [if_pos (beq_iff_eq.1 hk)]
  · next hk => rw [if_neg (beq_eq_false_iff_ne.1 hk)]

theorem lookup_assign (key : String) (value : Toml) (entries : List (String × Toml))
    (k : String) : (assign key value entries).lookup k =
      if k = key then some value else entries.lookup k := by
  induction entries with
  | nil => exact lookup_cons_eq_ite key value [] k
  | cons e entries ih =>
    obtain ⟨name, old⟩ := e
    rw [assign]
    split
    · next hname =>
      subst hname
      rw [lookup_cons_eq_ite, lookup_cons_eq_ite]
      split
      · rfl
      · rfl
    · next hname =>
      rw [lookup_cons_eq_ite, lookup_cons_eq_ite, ih]
      by_cases hk : k = name
      · simp [hk, hname]
      · simp [hk]

theorem lookup_filter (keeps : String → Bool) (entries : List (String × Toml)) (k : String) :
    (entries.filter (keeps ·.1)).lookup k = if keeps k then entries.lookup k else none := by
  induction entries with
  | nil => simp
  | cons e entries ih =>
    obtain ⟨name, old⟩ := e
    rw [List.filter_cons, lookup_cons_eq_ite]
    by_cases hk : k = name
    · subst hk
      cases hkeeps : keeps k with
      | true => simp
      | false => simpa [hkeeps] using ih
    · cases hkeeps : keeps name with
      | true => simp [lookup_cons_eq_ite, hk, ih]
      | false => simp [hk, ih]

theorem kept_assign (h : ∀ t, entries.lookup key = some t → t.Keeps value) :
    Kept entries (assign key value entries) := by
  intro k t ht
  rw [lookup_assign]
  split
  · next hk => exact ⟨value, rfl, h t (hk ▸ ht)⟩
  · exact ⟨t, ht, .refl t⟩

theorem kept_append (added : List (String × Toml)) : Kept entries (entries ++ added) := by
  intro k t ht
  exact ⟨t, by simp [List.lookup_append, ht], .refl t⟩

theorem kept_addKey (h : addKey key value entries = some entries') : Kept entries entries' := by
  rw [addKey] at h
  split at h
  · cases h
  · cases h
    exact kept_append _

theorem kept_openTable (h : openTable key entries = some entries') : Kept entries entries' := by
  rw [openTable] at h
  split at h
  · cases h
    exact kept_append _
  · next inner hlookup =>
    cases h
    intro k t ht
    rw [List.lookup_append, lookup_filter (· ≠ key)]
    by_cases hk : k = key
    · subst hk
      obtain rfl := Option.some.inj (hlookup.symm.trans ht)
      exact ⟨.table .header inner, by simp, (Kept.refl inner).table⟩
    · exact ⟨t, by simp [hk, ht], .refl t⟩
  · cases h

theorem kept_openElement (h : openElement key entries = some entries') : Kept entries entries' := by
  rw [openElement] at h
  split at h
  · cases h
    exact kept_append _
  · next hlookup =>
    cases h
    refine kept_assign fun t ht => ?_
    obtain rfl := Option.some.inj (hlookup.symm.trans ht)
    exact keeps_tables
  · cases h

/-- A change of the table at a path keeps what the change of its entries does. -/
theorem kept_changeAt
    (hchange : ∀ old new, change old = some new → Kept old new)
    (h : changeAt made change path entries = some entries') : Kept entries entries' := by
  induction path generalizing entries entries' with
  | nil => exact hchange _ _ h
  | cons key path ih =>
    rw [changeAt] at h
    split at h
    · next hlookup =>
      obtain ⟨inner, -, rfl⟩ := Option.map_eq_some_iff.1 h
      exact kept_assign fun t ht => by rw [hlookup] at ht; cases ht
    · next origin inner hlookup =>
      split at h
      · cases h
      · obtain ⟨inner', hinner, rfl⟩ := Option.map_eq_some_iff.1 h
        refine kept_assign fun t ht => ?_
        obtain rfl := Option.some.inj (hlookup.symm.trans ht)
        exact (ih hinner).table
    · next elements hlookup =>
      split at h
      · obtain ⟨inner', -, rfl⟩ := Option.map_eq_some_iff.1 h
        refine kept_assign fun t ht => ?_
        obtain rfl := Option.some.inj (hlookup.symm.trans ht)
        exact keeps_tables
      · cases h
    · cases h

theorem kept_addDotted (h : addDotted path key value entries = some entries') :
    Kept entries entries' := by
  rw [addDotted] at h
  split at h
  · exact kept_changeAt (fun _ _ => kept_addKey) h
  · cases h

/-! ## Lines -/

theorem Progress.kept_assign {keys : List String} (h : p.assign keys value = some p') :
    Kept p.entries p'.entries := by
  obtain ⟨last, -, h⟩ := Option.bind_eq_some_iff.1 h
  obtain ⟨entries, hentries, h⟩ := Option.bind_eq_some_iff.1 h
  cases h
  exact kept_changeAt (fun _ _ => kept_addDotted) hentries

theorem Progress.kept_enter {enter : String → List (String × Toml) → Option (List (String × Toml))}
    (henter : ∀ key old new, enter key old = some new → Kept old new)
    (h : p.enter path enter = some p') : Kept p.entries p'.entries := by
  obtain ⟨last, -, h⟩ := Option.bind_eq_some_iff.1 h
  obtain ⟨entries, hentries, h⟩ := Option.bind_eq_some_iff.1 h
  cases h
  exact kept_changeAt (henter last) hentries

theorem kept_expression (h : expression? p s = some (p', rest)) : Kept p.entries p'.entries := by
  rw [expression?.eq_def] at h
  split at h
  · obtain ⟨⟨path, rest⟩, -, h⟩ := Option.bind_eq_some_iff.1 h
    split at h
    · obtain ⟨middle, henter, h⟩ := Option.bind_eq_some_iff.1 h
      cases h
      exact Progress.kept_enter (fun _ _ _ => kept_openElement) henter
    · cases h
  · obtain ⟨⟨path, rest⟩, -, h⟩ := Option.bind_eq_some_iff.1 h
    split at h
    · obtain ⟨middle, henter, h⟩ := Option.bind_eq_some_iff.1 h
      cases h
      exact Progress.kept_enter (fun _ _ _ => kept_openTable) henter
    · cases h
  · obtain ⟨⟨keys, rest⟩, -, h⟩ := Option.bind_eq_some_iff.1 h
    split at h
    · obtain ⟨⟨value, rest⟩, -, h⟩ := Option.bind_eq_some_iff.1 h
      obtain ⟨middle, hassign, h⟩ := Option.bind_eq_some_iff.1 h
      cases h
      exact Progress.kept_assign hassign
    · cases h

/-- The lines of a document keep the strings that were there before them. -/
theorem kept_lines (h : lines? count p s = some p') : Kept p.entries p'.entries := by
  induction count generalizing p s with
  | zero =>
    rw [lines?] at h
    split at h
    · cases h
      exact .refl _
    · cases h
  | succ count ih =>
    rw [lines?] at h
    split at h
    · cases h
      exact .refl _
    · split at h
      · obtain ⟨rest, -, h⟩ := Option.bind_eq_some_iff.1 h
        exact ih h
      · obtain ⟨⟨middle, rest⟩, hexpression, h⟩ := Option.bind_eq_some_iff.1 h
        obtain ⟨rest, -, h⟩ := Option.bind_eq_some_iff.1 h
        exact (kept_expression hexpression).trans (ih h)

end Sitewright.Toml
