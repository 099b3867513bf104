import Sitewright.Proofs.Dependency.SelfNamed
import Sitewright.Proofs.Table

/-!
# What merging keeps

Records that are merged one after another meet only the records of their own identifier: the merging
succeeds exactly when the records of every identifier name one module, and the last record of an
identifier is then the one that is kept. When a merge fails, what was kept before stays, so that an
identifier never changes its module, whatever is merged.
-/

namespace Sitewright.Imports

open Outcome

variable {imports result other : Imports} {records records' : List (String × Dependency)}
  {x y : String} {d e : Dependency} {r : String × Dependency} {f : Fault}

theorem ext_get? {s t : Imports} (h : ∀ x, s.get? x = t.get? x) : s = t :=
  congrArg Imports.mk (Table.ext_get? h)

/-! ## Records by identifier -/

def under (x : String) (records : List (String × Dependency)) : List Dependency :=
  (records.filter (·.1 = x)).map Prod.snd

def lastUnder (x : String) (records : List (String × Dependency)) : Option Dependency :=
  (under x records).getLast?

/-- The records of every identifier name one module. -/
def OneSource (records : List (String × Dependency)) : Prop :=
  ∀ r ∈ records, ∀ q ∈ records, r.1 = q.1 → r.2.source = q.2.source

/-- A record names the module that its identifier has already, if it has one. -/
def Fits (imports : Imports) (r : String × Dependency) : Prop :=
  ∀ d, imports.get? r.1 = some d → d.source = r.2.source

theorem mem_under : d ∈ under x records ↔ (x, d) ∈ records := by
  simp [under]

theorem under_cons (r : String × Dependency) (rest : List (String × Dependency)) :
    under x (r :: rest) = if r.1 = x then r.2 :: under x rest else under x rest := by
  by_cases h : r.1 = x <;> simp [under, h]

@[simp] theorem lastUnder_nil : lastUnder x [] = none := rfl

theorem lastUnder_append (first rest : List (String × Dependency)) :
    lastUnder x (first ++ rest) = (lastUnder x rest).or (lastUnder x first) := by
  simp [lastUnder, under, List.getLast?_append]

theorem lastUnder_cons (r : String × Dependency) (rest : List (String × Dependency)) :
    lastUnder x (r :: rest) = (lastUnder x rest).or (if r.1 = x then some r.2 else none) := by
  have hfirst : lastUnder x [r] = if r.1 = x then some r.2 else none := by
    by_cases h : r.1 = x <;> simp [lastUnder, under, h]
  rw [← hfirst, ← lastUnder_append, List.singleton_append]

theorem mem_of_lastUnder (h : lastUnder x records = some d) : (x, d) ∈ records :=
  mem_under.1 (List.mem_of_getLast? h)

theorem exists_lastUnder (h : (x, d) ∈ records) : ∃ e, lastUnder x records = some e := by
  rw [← Option.isSome_iff_exists, lastUnder, List.getLast?_isSome]
  exact List.ne_nil_of_mem (mem_under.2 h)

theorem oneSource_iff : OneSource records ↔
    ∀ x, ∀ d ∈ under x records, ∀ e ∈ under x records, d.source = e.source := by
  constructor
  · intro h x d hd e he
    exact h (x, d) (mem_under.1 hd) (x, e) (mem_under.1 he) rfl
  · rintro h ⟨x, d⟩ hr ⟨y, e⟩ hq rfl
    exact h x d (mem_under.2 hr) e (mem_under.2 hq)

theorem oneSource_perm (h : records.Perm records') : OneSource records ↔ OneSource records' := by
  simp only [OneSource, h.mem_iff]

theorem oneSource_cons {rest : List (String × Dependency)} : OneSource (r :: rest) ↔
    OneSource rest ∧ ∀ q ∈ rest, r.1 = q.1 → r.2.source = q.2.source := by
  constructor
  · intro h
    exact ⟨fun q hq t ht => h q (List.mem_cons_of_mem _ hq) t (List.mem_cons_of_mem _ ht),
      fun q hq => h r List.mem_cons_self q (List.mem_cons_of_mem _ hq)⟩
  · rintro ⟨hrest, hr⟩ q hq t ht heq
    rcases List.mem_cons.1 hq with hq | hq
    · rcases List.mem_cons.1 ht with ht | ht
      · rw [hq, ht]
      · exact hq ▸ hr t ht (hq ▸ heq)
    · rcases List.mem_cons.1 ht with ht | ht
      · exact ht ▸ (hr q hq (ht ▸ heq.symm)).symm
      · exact hrest q hq t ht heq

/-! ## One record -/

theorem fits_empty (r : String × Dependency) : empty.Fits r := by
  intro d h
  cases h

theorem merge_ok_iff : imports.merge r.1 r.2 = .ok result ↔
    imports.Fits r ∧ result = ⟨imports.records.insert r.1 r.2⟩ := by
  rw [merge, Fits]
  cases hget : imports.get? r.1 with
  | none => simp [eq_comm]
  | some existing =>
    by_cases h : existing.source = r.2.source
    · simp [h, eq_comm]
    · simp [h]

theorem merge_error_iff : imports.merge r.1 r.2 = .error f ↔ ∃ existing,
    imports.get? r.1 = some existing ∧ existing.source ≠ r.2.source ∧
      f = .ambiguousDependency r.1 existing.source r.2.source := by
  rw [merge]
  cases hget : imports.get? r.1 with
  | none => simp
  | some existing =>
    by_cases h : existing.source = r.2.source
    · simp [h]
    · simp [h, eq_comm]

theorem get?_of_merge (h : imports.merge r.1 r.2 = .ok result) (x : String) :
    result.get? x = if r.1 = x then some r.2 else imports.get? x := by
  obtain ⟨-, rfl⟩ := merge_ok_iff.1 h
  rw [get?, Table.get?_insert]
  exact if_congr eq_comm rfl rfl

theorem fits_of_merge {q : String × Dependency} (h : imports.merge r.1 r.2 = .ok result) :
    result.Fits q ↔ if r.1 = q.1 then r.2.source = q.2.source else imports.Fits q := by
  rw [Fits, get?_of_merge h]
  by_cases heq : r.1 = q.1
  · simp [heq]
  · simp [heq, Fits]

/-! ## Lists of records -/

theorem exists_mergeAll_ok_iff : (∃ result, imports.mergeAll records = .ok result) ↔
    (∀ r ∈ records, imports.Fits r) ∧ OneSource records := by
  induction records generalizing imports with
  | nil =>
    have hempty : OneSource [] := by simp [OneSource]
    exact ⟨fun _ => ⟨by simp, hempty⟩, fun _ => ⟨imports, rfl⟩⟩
  | cons r rest ih =>
    have hstep : (∃ result, imports.mergeAll (r :: rest) = .ok result) ↔
        ∃ next, imports.merge r.1 r.2 = .ok next ∧ ∃ result, next.mergeAll rest = .ok result := by
      simp only [mergeAll_cons, bind_ok_iff]
      exact ⟨fun ⟨result, next, hnext, h⟩ => ⟨next, hnext, result, h⟩,
        fun ⟨next, hnext, result, h⟩ => ⟨result, next, hnext, h⟩⟩
    rw [hstep, oneSource_cons]
    constructor
    · rintro ⟨next, hnext, hrest⟩
      obtain ⟨hfits, hone⟩ := ih.1 hrest
      obtain ⟨hr, -⟩ := merge_ok_iff.1 hnext
      -- a later record of the identifier fits what this one has left, and so fits this one
      have hsame : ∀ q ∈ rest, r.1 = q.1 → r.2.source = q.2.source := fun q hq heq => by
        simpa [heq] using (fits_of_merge hnext).1 (hfits q hq)
      refine ⟨List.forall_mem_cons.2 ⟨hr, fun q hq => ?_⟩, hone, hsame⟩
      have hq' := (fits_of_merge hnext).1 (hfits q hq)
      by_cases heq : r.1 = q.1
      · intro d hd
        rw [← heq] at hd
        exact (hr d hd).trans (hsame q hq heq)
      · rwa [if_neg heq] at hq'
    · rintro ⟨hfits, hone, hsame⟩
      obtain ⟨hr, hrest⟩ := List.forall_mem_cons.1 hfits
      have hnext := merge_ok_iff.2 ⟨hr, rfl⟩
      refine ⟨_, hnext, ih.2 ⟨fun q hq => (fits_of_merge hnext).2 ?_, hone⟩⟩
      by_cases heq : r.1 = q.1
      · rw [if_pos heq]
        exact hsame q hq heq
      · rw [if_neg heq]
        exact hrest q hq

/-- After a merging, an identifier has its last record, and its old one if there is none. -/
theorem get?_of_mergeAll (h : imports.mergeAll records = .ok result) (x : String) :
    result.get? x = (lastUnder x records).or (imports.get? x) := by
  induction records generalizing imports with
  | nil =>
    obtain rfl := Except.ok.inj h
    rfl
  | cons r rest ih =>
    rw [mergeAll_cons] at h
    obtain ⟨next, hnext, h⟩ := bind_ok_iff.1 h
    rw [ih h, get?_of_merge hnext, lastUnder_cons, Option.or_assoc]
    by_cases heq : r.1 = x
    · simp [heq]
    · simp [heq]

theorem get?_of_mergeAll_empty (h : empty.mergeAll records = .ok result) (x : String) :
    result.get? x = lastUnder x records := by
  have hnone : empty.get? x = none := rfl
  rw [get?_of_mergeAll h, hnone, Option.or_none]

theorem exists_mergeAll_empty_iff :
    (∃ result, empty.mergeAll records = .ok result) ↔ OneSource records := by
  rw [exists_mergeAll_ok_iff]
  exact and_iff_right fun r _ => fits_empty r

/-- Every record of a merging that succeeds names the module that its identifier ends up with. -/
theorem source_of_mergeAll (h : imports.mergeAll records = .ok result) (hr : (x, d) ∈ records)
    (he : result.get? x = some e) : e.source = d.source := by
  obtain ⟨-, hone⟩ := exists_mergeAll_ok_iff.1 ⟨result, h⟩
  obtain ⟨last, hlast⟩ := exists_lastUnder hr
  rw [get?_of_mergeAll h, hlast, Option.some_or] at he
  obtain rfl := Option.some.inj he
  exact hone _ (mem_of_lastUnder hlast) _ hr rfl

/-- Records after those of a merging that succeeds are merged into what it leaves. -/
theorem mergeAll_append_of_ok (h : imports.mergeAll records = .ok result)
    (rest : List (String × Dependency)) :
    imports.mergeAll (records ++ rest) = result.mergeAll rest := by
  have happend : imports.mergeAll (records ++ rest) =
      imports.mergeAll records >>= fun next => next.mergeAll rest := List.foldlM_append
  rw [happend, h]
  rfl

/-- What a merging leaves depends on the records of each identifier and their order only. -/
theorem mergeAll_ok_of_under_eq (hunder : ∀ x, under x records = under x records')
    (h : empty.mergeAll records = .ok result) : empty.mergeAll records' = .ok result := by
  have hone : OneSource records' := by
    have hone := exists_mergeAll_empty_iff.1 ⟨result, h⟩
    rw [oneSource_iff] at hone ⊢
    simpa only [← hunder] using hone
  obtain ⟨result', h'⟩ := exists_mergeAll_empty_iff.2 hone
  have heq : result' = result := ext_get? fun x => by
    rw [get?_of_mergeAll_empty h', get?_of_mergeAll_empty h, lastUnder, lastUnder, hunder]
  rw [h', heq]

/-! ## Mergings that stop -/

theorem mergeSome_cons_ok {next : Imports} (rest : List (String × Dependency))
    (h : imports.merge r.1 r.2 = .ok next) :
    imports.mergeSome (r :: rest) = next.mergeSome rest := by
  rw [mergeSome, h]

theorem mergeSome_cons_error (rest : List (String × Dependency))
    (h : imports.merge r.1 r.2 = .error f) : imports.mergeSome (r :: rest) = (imports, some f) := by
  rw [mergeSome, h]

theorem mergeSome_none_iff : imports.mergeSome records = (result, none) ↔
    imports.mergeAll records = .ok result := by
  induction records generalizing imports with
  | nil => simp [mergeSome, mergeAll, pure, Except.pure]
  | cons r rest ih =>
    rw [mergeAll_cons]
    rcases exists_ok_or_error (imports.merge r.1 r.2) with ⟨next, hnext⟩ | ⟨f, hf⟩
    · rw [mergeSome_cons_ok rest hnext, hnext]
      exact ih
    · rw [mergeSome_cons_error rest hf, hf]
      simp [bind, Except.bind]

/-- A merging that stops has merged all records before the one that failed. -/
theorem mergeSome_some (h : imports.mergeSome records = (result, some f)) : ∃ first r rest,
    records = first ++ r :: rest ∧ imports.mergeAll first = .ok result ∧
      result.merge r.1 r.2 = .error f := by
  induction records generalizing imports with
  | nil => cases h
  | cons r rest ih =>
    rcases exists_ok_or_error (imports.merge r.1 r.2) with ⟨next, hnext⟩ | ⟨g, hg⟩
    · rw [mergeSome_cons_ok rest hnext] at h
      obtain ⟨first, q, later, rfl, hfirst, hq⟩ := ih h
      refine ⟨r :: first, q, later, rfl, ?_, hq⟩
      rw [mergeAll_cons, hnext]
      exact hfirst
    · rw [mergeSome_cons_error rest hg] at h
      obtain ⟨rfl, hgf⟩ := Prod.mk.inj h
      obtain rfl := Option.some.inj hgf
      exact ⟨[], r, rest, rfl, rfl, hg⟩

theorem exists_get?_of_merge (hmerge : imports.merge r.1 r.2 = .ok result)
    (h : imports.get? x = some d) : ∃ e, result.get? x = some e ∧ e.source = d.source := by
  rw [get?_of_merge hmerge]
  by_cases heq : r.1 = x
  · obtain ⟨hfits, -⟩ := merge_ok_iff.1 hmerge
    exact ⟨r.2, if_pos heq, (hfits d (heq ▸ h)).symm⟩
  · exact ⟨d, (if_neg heq).trans h, rfl⟩

/-- However far a merging goes, an identifier keeps its module. -/
theorem exists_get?_mergeSome (records : List (String × Dependency))
    (h : imports.get? x = some d) :
    ∃ e, (imports.mergeSome records).1.get? x = some e ∧ e.source = d.source := by
  induction records generalizing imports d with
  | nil => exact ⟨d, h, rfl⟩
  | cons r rest ih =>
    rcases exists_ok_or_error (imports.merge r.1 r.2) with ⟨next, hnext⟩ | ⟨f, hf⟩
    · rw [mergeSome_cons_ok rest hnext]
      obtain ⟨e, he, hsource⟩ := exists_get?_of_merge hnext h
      obtain ⟨e', he', hsource'⟩ := ih he
      exact ⟨e', he', hsource'.trans hsource⟩
    · rw [mergeSome_cons_error rest hf]
      exact ⟨d, h, rfl⟩

end Sitewright.Imports
