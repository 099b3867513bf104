import Sitewright.Proofs.Dependency.Merging

/-!
# Imports over a run of calls

Imports are collected by two calls, of which one merges a record and the other the records of
another collection. A call that fails leaves what it had done before the fault, and the calls after
it go on from there. An identifier that has a module keeps it over any run of calls, and a run of
merges leaves each identifier what its own records, in their order, make of it.
-/

namespace Sitewright.Imports

open Outcome

variable {imports result other : Imports} {records records' : List (String × Dependency)}
  {x y : String} {d e : Dependency} {f : Fault}

inductive Call
  | merge (identifier : String) (record : Dependency)
  | extend (other : Imports)

def call (imports : Imports) : Call → Imports × Option Fault
  | .merge identifier record => imports.mergeSome [(identifier, record)]
  | .extend other => imports.extend other

/-- What calls leave one after another, whether they fail or not. -/
def afterCalls (imports : Imports) (calls : List Call) : Imports :=
  calls.foldl (fun imports c => (imports.call c).1) imports

theorem afterCalls_cons (c : Call) (calls : List Call) :
    imports.afterCalls (c :: calls) = (imports.call c).1.afterCalls calls := rfl

/-! ## One call -/

theorem call_merge_none_iff : (imports.call (.merge x d)).2 = none ↔ imports.Fits (x, d) := by
  rcases exists_ok_or_error (imports.merge x d) with ⟨next, hnext⟩ | ⟨f, hf⟩
  · have hfits := (merge_ok_iff (r := (x, d)).1 hnext).1
    rw [call, mergeSome_cons_ok _ hnext]
    simp [mergeSome, hfits]
  · have hmisfit : ¬ imports.Fits (x, d) := fun h => by
      obtain ⟨existing, hget, hne, -⟩ := merge_error_iff (r := (x, d)).1 hf
      exact hne (h existing hget)
    rw [call, mergeSome_cons_error _ hf]
    simp [hmisfit]

/-- A merge that fails leaves everything as it was. -/
theorem call_merge_some (h : (imports.call (.merge x d)).2 = some f) :
    (imports.call (.merge x d)).1 = imports ∧ ∃ existing, imports.get? x = some existing ∧
      existing.source ≠ d.source ∧ f = .ambiguousDependency x existing.source d.source := by
  rcases exists_ok_or_error (imports.merge x d) with ⟨next, hnext⟩ | ⟨g, hg⟩
  · rw [call, mergeSome_cons_ok _ hnext] at h
    cases h
  · have hcall : imports.call (.merge x d) = (imports, some g) :=
      mergeSome_cons_error (r := (x, d)) [] hg
    rw [hcall] at h ⊢
    obtain rfl := Option.some.inj h
    exact ⟨rfl, merge_error_iff (r := (x, d)).1 hg⟩

/-- The least identifier of a collection that has another module already. -/
structure FirstConflict (imports other : Imports) (x : String) (existing incoming : Dependency) :
    Prop where
  get?_self : imports.get? x = some existing
  get?_other : other.get? x = some incoming
  source_ne : existing.source ≠ incoming.source
  fits_below : ∀ y < x, ∀ d, other.get? y = some d → imports.Fits (y, d)

def below (other : Imports) (x : String) : List (String × Dependency) :=
  other.records.entries.filter (·.1 < x)

theorem filter_lt_of_sorted {first rest : List (String × Dependency)} {r : String × Dependency}
    (h : SortedByName (first ++ r :: rest)) : (first ++ r :: rest).filter (·.1 < r.1) = first := by
  obtain ⟨-, hrest, hfirst⟩ := List.pairwise_append.1 h
  have hbefore : first.filter (·.1 < r.1) = first :=
    List.filter_eq_self.2 fun q hq => decide_eq_true (hfirst q hq r List.mem_cons_self)
  have hafter : (r :: rest).filter (·.1 < r.1) = [] := by
    rw [List.filter_eq_nil_iff]
    intro q hq hlt
    rcases List.mem_cons.1 hq with rfl | hq
    · exact String.lt_irrefl _ (of_decide_eq_true hlt)
    · exact String.lt_asymm (of_decide_eq_true hlt) ((List.pairwise_cons.1 hrest).1 q hq)
  rw [List.filter_append, hbefore, hafter, List.append_nil]

theorem oneSource_entries (t : Table Dependency) : OneSource t.entries := by
  rintro ⟨x, d⟩ hr ⟨y, e⟩ hq rfl
  have heq := (Table.mem_entries_iff.1 hr).symm.trans (Table.mem_entries_iff.1 hq)
  exact congrArg Dependency.source (Option.some.inj heq)

theorem call_extend_none_iff : (imports.call (.extend other)).2 = none ↔
    ∀ y d, other.get? y = some d → imports.Fits (y, d) := by
  have hfits : (∃ result, imports.mergeAll other.records.entries = .ok result) ↔
      ∀ y d, other.get? y = some d → imports.Fits (y, d) := by
    rw [exists_mergeAll_ok_iff]
    constructor
    · rintro ⟨h, -⟩ y d hget
      exact h _ (Table.mem_entries_iff.2 hget)
    · intro h
      exact ⟨fun ⟨y, d⟩ hr => h y d (Table.mem_entries_iff.1 hr), oneSource_entries _⟩
  rw [← hfits]
  constructor
  · intro h
    exact ⟨_, mergeSome_none_iff.1 (Prod.ext rfl h)⟩
  · rintro ⟨result, h⟩
    exact congrArg Prod.snd (mergeSome_none_iff.2 h)

/-- An extension that fails has merged the records below the first conflict, and no other. -/
theorem call_extend_some (h : (imports.call (.extend other)).2 = some f) :
    ∃ x existing incoming, imports.FirstConflict other x existing incoming ∧
      f = .ambiguousDependency x existing.source incoming.source ∧
      imports.mergeAll (other.below x) = .ok (imports.call (.extend other)).1 := by
  obtain ⟨first, ⟨x, incoming⟩, rest, hentries, hfirst, hconflict⟩ :=
    mergeSome_some (Prod.ext rfl h : imports.mergeSome other.records.entries = (_, some f))
  obtain ⟨existing, hexisting, hne, hf⟩ := merge_error_iff (r := (x, incoming)).1 hconflict
  have hsorted : SortedByName (first ++ (x, incoming) :: rest) := hentries ▸ other.records.sorted
  have hbelow : other.below x = first := by
    rw [below, hentries]
    exact filter_lt_of_sorted hsorted
  -- the identifier of the conflict does not stand among the records before it
  have hnew : lastUnder x first = none := by
    rw [Option.eq_none_iff_forall_not_mem]
    intro d hd
    have hlt := (List.pairwise_append.1 hsorted).2.2 _ (mem_of_lastUnder hd) _ List.mem_cons_self
    exact String.lt_irrefl _ hlt
  have hget : imports.get? x = some existing := by
    rwa [get?_of_mergeAll hfirst, hnew, Option.none_or] at hexisting
  obtain ⟨hfits, -⟩ := exists_mergeAll_ok_iff.1 ⟨_, hfirst⟩
  refine ⟨x, existing, incoming, ⟨hget, ?_, hne, fun y hy d hd => ?_⟩, hf, ?_⟩
  · exact Table.mem_entries_iff.1 (hentries ▸ List.mem_append_right _ List.mem_cons_self)
  · refine hfits (y, d) (hbelow ▸ List.mem_filter.2 ⟨Table.mem_entries_iff.2 hd, ?_⟩)
    exact decide_eq_true hy
  · rw [hbelow]
    exact hfirst

/-! ## Runs of calls -/

theorem exists_get?_call (c : Call) (h : imports.get? x = some d) :
    ∃ e, (imports.call c).1.get? x = some e ∧ e.source = d.source := by
  cases c with
  | merge identifier record => exact exists_get?_mergeSome [(identifier, record)] h
  | extend other => exact exists_get?_mergeSome other.records.entries h

theorem exists_get?_afterCalls (calls : List Call) (h : imports.get? x = some d) :
    ∃ e, (imports.afterCalls calls).get? x = some e ∧ e.source = d.source := by
  induction calls generalizing imports d with
  | nil => exact ⟨d, h, rfl⟩
  | cons c calls ih =>
    obtain ⟨e, he, hsource⟩ := exists_get?_call c h
    obtain ⟨e', he', hsource'⟩ := ih he
    exact ⟨e', he', hsource'.trans hsource⟩

def merges (records : List (String × Dependency)) : List Call :=
  records.map fun r => .merge r.1 r.2

def kept (existing : Option Dependency) (record : Dependency) : Option Dependency :=
  match existing with
  | some d => if d.source = record.source then some record else some d
  | none => some record

theorem get?_call_merge (r : String × Dependency) :
    (imports.call (.merge r.1 r.2)).1.get? x =
      if r.1 = x then kept (imports.get? x) r.2 else imports.get? x := by
  rcases exists_ok_or_error (imports.merge r.1 r.2) with ⟨next, hnext⟩ | ⟨f, hf⟩
  · have hcall : imports.call (.merge r.1 r.2) = (next, none) := mergeSome_cons_ok [] hnext
    rw [hcall, get?_of_merge hnext]
    by_cases heq : r.1 = x
    · have hfits := (merge_ok_iff.1 hnext).1
      rw [Fits, heq] at hfits
      cases hget : imports.get? x with
      | none => rfl
      | some existing => simp [heq, kept, hfits existing hget]
    · rw [if_neg heq, if_neg heq]
  · have hcall : imports.call (.merge r.1 r.2) = (imports, some f) := mergeSome_cons_error [] hf
    obtain ⟨existing, hget, hne, -⟩ := merge_error_iff.1 hf
    rw [hcall]
    by_cases heq : r.1 = x
    · rw [heq] at hget
      simp [heq, hget, kept, hne]
    · rw [if_neg heq]

/-- Merges, failing ones among them, treat each identifier as if it were the only one. -/
theorem get?_afterCalls_merges : (imports.afterCalls (merges records)).get? x =
    (under x records).foldl kept (imports.get? x) := by
  induction records generalizing imports with
  | nil => rfl
  | cons r rest ih =>
    rw [merges, List.map_cons, afterCalls_cons, ← merges, ih, get?_call_merge, under_cons]
    by_cases heq : r.1 = x
    · rw [if_pos heq, if_pos heq, List.foldl_cons]
    · rw [if_neg heq, if_neg heq]

theorem afterCalls_merges_of_under_eq (h : ∀ x, under x records = under x records') :
    imports.afterCalls (merges records) = imports.afterCalls (merges records') := by
  refine ext_get? fun x => ?_
  rw [get?_afterCalls_merges, get?_afterCalls_merges, h]

/-- Merging into nothing succeeds exactly for records of one module under each identifier, keeps the
last record of each and does not depend on the order of different identifiers. Over any run of calls
the module of an identifier stays, and a call that fails leaves what it had merged before. -/
theorem merging_keeps_last_of_one_source :
    (∀ records, ((∃ imports, empty.mergeAll records = .ok imports) ↔ OneSource records) ∧
      ∀ imports, empty.mergeAll records = .ok imports → ∀ x, imports.get? x = lastUnder x records) ∧
    (∀ records records' : List (String × Dependency), records.Perm records' →
      ((∃ imports, empty.mergeAll records = .ok imports) ↔
        ∃ imports, empty.mergeAll records' = .ok imports) ∧
      ((∀ x, under x records = under x records') →
        (∀ imports, empty.mergeAll records = .ok imports ↔ empty.mergeAll records' = .ok imports) ∧
        ∀ imports : Imports, imports.afterCalls (merges records) =
          imports.afterCalls (merges records'))) ∧
    (∀ imports : Imports, ∀ calls x d, imports.get? x = some d →
      ∃ e, (imports.afterCalls calls).get? x = some e ∧ e.source = d.source) ∧
    (∀ imports : Imports, ∀ x d, ((imports.call (.merge x d)).2 = none ↔ imports.Fits (x, d)) ∧
      ∀ f, (imports.call (.merge x d)).2 = some f → (imports.call (.merge x d)).1 = imports ∧
        ∃ existing, imports.get? x = some existing ∧ existing.source ≠ d.source ∧
          f = .ambiguousDependency x existing.source d.source) ∧
    ∀ imports other : Imports,
      ((imports.call (.extend other)).2 = none ↔
        ∀ y d, other.get? y = some d → imports.Fits (y, d)) ∧
      ∀ f, (imports.call (.extend other)).2 = some f →
        ∃ x existing incoming, imports.FirstConflict other x existing incoming ∧
          f = .ambiguousDependency x existing.source incoming.source ∧
          imports.mergeAll (other.below x) = .ok (imports.call (.extend other)).1 := by
  refine ⟨fun records => ⟨exists_mergeAll_empty_iff, fun imports h => get?_of_mergeAll_empty h⟩,
    fun records records' hperm => ⟨?_, fun hunder => ⟨fun imports => ⟨?_, ?_⟩, fun imports => ?_⟩⟩,
    fun imports calls x d => exists_get?_afterCalls calls,
    fun imports x d => ⟨call_merge_none_iff, fun f => call_merge_some⟩,
    fun imports other => ⟨call_extend_none_iff, fun f => call_extend_some⟩⟩
  · rw [exists_mergeAll_empty_iff, exists_mergeAll_empty_iff]
    exact oneSource_perm hperm
  · exact mergeAll_ok_of_under_eq hunder
  · exact mergeAll_ok_of_under_eq fun x => (hunder x).symm
  · exact afterCalls_merges_of_under_eq hunder

def linkedTwice : List (String × Dependency) :=
  [("Link", (Dependency.library "router" "4.3.1").named), ("React", .library "react" "16.8.3"),
    ("Link", (Dependency.library "router" "5.0.0").named)]

def linkedAtOnce : List (String × Dependency) :=
  [("React", .library "react" "16.8.3"), ("Link", (Dependency.library "router" "4.3.1").named),
    ("Link", (Dependency.library "router" "5.0.0").named)]

def linked : Imports where
  records := (Table.empty.insert "Link" (Dependency.library "router" "5.0.0").named).insert "React"
    (.library "react" "16.8.3")

def cardAndLink : Imports where
  records := (Table.empty.insert "Card" (.localPath "./card")).insert "Link" (.localPath "./link")

theorem under_linkedTwice (x : String) : under x linkedTwice = under x linkedAtOnce := by
  by_cases hlink : "Link" = x
  · subst hlink
    rfl
  · simp [linkedTwice, linkedAtOnce, under_cons, hlink]

theorem merging_keeps_last_of_one_source_linked :
    empty.mergeAll linkedTwice = .ok linked ∧ OneSource linkedTwice ∧
    linked.get? "Link" = lastUnder "Link" linkedTwice ∧
    linkedTwice.Perm linkedAtOnce ∧ empty.mergeAll linkedAtOnce = .ok linked ∧
    (∃ e, (linked.afterCalls [.extend cardAndLink]).get? "React" = some e ∧ e.source = "react") ∧
    (linked.call (.merge "Link" (.localPath "./link"))).1 = linked ∧
    ∃ x existing incoming, linked.FirstConflict cardAndLink x existing incoming ∧
      linked.mergeAll (cardAndLink.below x) = .ok (linked.call (.extend cardAndLink)).1 := by
  obtain ⟨hmerging, horder, hsource, hmerge, hextend⟩ := merging_keeps_last_of_one_source
  have hlinked : empty.mergeAll linkedTwice = .ok linked := rfl
  have hperm : linkedTwice.Perm linkedAtOnce := .swap _ _ _
  have hreact : linked.get? "React" = some (.library "react" "16.8.3") := rfl
  have hfault : (linked.call (.merge "Link" (.localPath "./link"))).2 =
    some (.ambiguousDependency "Link" "router" "./link") := rfl
  have hfault' : (linked.call (.extend cardAndLink)).2 =
    some (.ambiguousDependency "Link" "router" "./link") := rfl
  obtain ⟨x, existing, incoming, hfirst, -, hbelow⟩ := (hextend linked cardAndLink).2 _ hfault'
  exact ⟨hlinked, (hmerging linkedTwice).1.1 ⟨linked, hlinked⟩,
    (hmerging linkedTwice).2 linked hlinked "Link", hperm,
    (((horder _ _ hperm).2 under_linkedTwice).1 linked).1 hlinked,
    hsource linked [.extend cardAndLink] "React" _ hreact,
    ((hmerge linked "Link" (.localPath "./link")).2 _ hfault).1,
    x, existing, incoming, hfirst, hbelow⟩

end Sitewright.Imports
