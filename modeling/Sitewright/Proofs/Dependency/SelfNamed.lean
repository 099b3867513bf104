import Sitewright.Dependency.Imports
import Sitewright.Proofs.Outcome

/-!
# Merging imports

Merging fails on an identifier that comes from two modules and on nothing else. The imports of
style sheets are recorded under their own paths, and such records never meet another module.
-/

namespace Sitewright.Imports

open Outcome

variable {imports result : Imports} {records : List (String × Dependency)} {identifier : String}
  {record : Dependency} {f : Fault}

theorem merge_error (h : imports.merge identifier record = .error f) :
    ∃ existing incoming, f = .ambiguousDependency identifier existing incoming := by
  rw [merge] at h
  split at h
  · next existing _ =>
    split at h
    · cases h
    · exact ⟨existing.source, record.source, (Except.error.inj h).symm⟩
  · cases h

theorem mergeAll_cons (imports : Imports) (r : String × Dependency)
    (rest : List (String × Dependency)) :
    imports.mergeAll (r :: rest) = imports.merge r.1 r.2 >>= fun next => next.mergeAll rest :=
  List.foldlM_cons

theorem mergeAll_error (h : imports.mergeAll records = .error f) :
    ∃ identifier existing incoming, f = .ambiguousDependency identifier existing incoming := by
  induction records generalizing imports with
  | nil => cases h
  | cons r rest ih =>
    rw [mergeAll_cons] at h
    rcases bind_error_iff.1 h with h | ⟨next, -, h⟩
    · exact ⟨r.1, merge_error h⟩
    · exact ih h

/-- Every record names its module by its identifier. -/
def SelfNamed (imports : Imports) : Prop :=
  ∀ identifier record, imports.get? identifier = some record → record.source = identifier

theorem selfNamed_empty : empty.SelfNamed := by
  intro identifier record h
  cases h

theorem SelfNamed.merge (h : imports.SelfNamed) (hsource : record.source = identifier) :
    ∃ result, imports.merge identifier record = .ok result ∧ result.SelfNamed := by
  have hmerge : imports.merge identifier record =
      .ok ⟨imports.records.insert identifier record⟩ := by
    rw [Imports.merge]
    split
    · next existing hget => rw [if_pos ((h identifier existing hget).trans hsource.symm)]
    · rfl
  refine ⟨_, hmerge, fun other found hfound => ?_⟩
  rw [get?, Table.get?_insert] at hfound
  by_cases hother : other = identifier
  · rw [if_pos hother] at hfound
    rw [← Option.some.inj hfound, hsource, hother]
  · rw [if_neg hother] at hfound
    exact h other found hfound

theorem SelfNamed.mergeAll (h : imports.SelfNamed) (hrecords : ∀ r ∈ records, r.2.source = r.1) :
    ∃ result, imports.mergeAll records = .ok result ∧ result.SelfNamed := by
  induction records generalizing imports with
  | nil => exact ⟨imports, rfl, h⟩
  | cons r rest ih =>
    obtain ⟨next, hnext, hnamed⟩ := h.merge (hrecords r List.mem_cons_self)
    obtain ⟨result, hresult, hresultNamed⟩ :=
      ih hnamed fun q hq => hrecords q (List.mem_cons_of_mem _ hq)
    exact ⟨result, by rw [mergeAll_cons, hnext]; exact hresult, hresultNamed⟩

end Sitewright.Imports
