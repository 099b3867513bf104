import Sitewright.Proofs.Dependency.Merging

/-!
# Versions of packages

The versions that collected imports give for a package manifest are those of the published records.
Where several records of a package carry a version, the one with the greatest identifier stands.
-/

namespace Sitewright

/-- A record of a library or another package that carries a version. -/
structure Dependency.Publishes (d : Dependency) (source version : String) : Prop where
  kind : d.kind ≠ .localPath
  source : d.source = source
  version : d.version = some version

namespace Imports

variable {imports : Imports} {d : Dependency} {source version : String}

def versionFrom? (source : String) (d : Dependency) : Option String :=
  (if d.isPublished then d.version.map fun version => (d.source, version) else none).bind fun e =>
    if e.1 = source then some e.2 else none

theorem versionFrom?_eq_some_iff :
    versionFrom? source d = some version ↔ d.Publishes source version := by
  constructor
  · intro h
    obtain ⟨e, he, h⟩ := Option.bind_eq_some_iff.1 h
    split at he
    · next hpublished =>
      obtain ⟨v, hv, rfl⟩ := Option.map_eq_some_iff.1 he
      split at h
      · next hsource =>
        simp only [Dependency.isPublished, Bool.and_eq_true, decide_eq_true_eq] at hpublished
        exact ⟨hpublished.1, hsource, hv.trans h⟩
      · cases h
    · cases he
  · rintro ⟨hkind, hsource, hversion⟩
    simp [versionFrom?, Dependency.isPublished, hkind, hsource, hversion]

theorem mem_entries_reverse_iff {x : String} :
    (x, d) ∈ imports.records.entries.reverse ↔ imports.get? x = some d := by
  rw [List.mem_reverse, Table.mem_entries_iff]
  rfl

theorem get?_packageVersions (imports : Imports) (source : String) :
    imports.packageVersions.get? source =
      imports.records.entries.reverse.findSome? (versionFrom? source ·.2) := by
  rw [packageVersions, Table.ofList, Table.get?_insertAll_filterMap, Table.values,
    ← List.map_reverse, List.findSome?_map]
  exact Option.or_none

/-- The packages are the sources of the records that carry a version. -/
theorem mem_keys_packageVersions_iff : source ∈ imports.packageVersions.keys ↔
    ∃ x d version, imports.get? x = some d ∧ d.Publishes source version := by
  simp only [Table.mem_keys_iff, get?_packageVersions, ← mem_entries_reverse_iff,
    ← versionFrom?_eq_some_iff]
  constructor
  · rintro ⟨version, h⟩
    obtain ⟨⟨x, d⟩, hd, hversion⟩ := List.exists_of_findSome?_eq_some h
    exact ⟨x, d, version, hd, hversion⟩
  · rintro ⟨x, d, version, hd, hversion⟩
    rw [← Option.isSome_iff_exists, List.findSome?_isSome_iff]
    exact ⟨(x, d), hd, by rw [hversion]; rfl⟩

/-- A package has the version of the greatest identifier among its records that carry one. -/
theorem get?_packageVersions_iff : imports.packageVersions.get? source = some version ↔
    ∃ x d, imports.get? x = some d ∧ d.Publishes source version ∧
      ∀ y e v, imports.get? y = some e → e.Publishes source v → y ≤ x := by
  have hsorted : imports.records.entries.reverse.Pairwise fun a b => b.1 < a.1 :=
    List.pairwise_reverse.2 imports.records.sorted
  simp only [get?_packageVersions, ← mem_entries_reverse_iff, List.findSome?_eq_some_iff]
  generalize imports.records.entries.reverse = entries at hsorted
  constructor
  · rintro ⟨greater, ⟨x, d⟩, less, rfl, hversion, hnone⟩
    refine ⟨x, d, by simp, versionFrom?_eq_some_iff.1 hversion, fun y e v he hpublishes => ?_⟩
    obtain ⟨-, hless, -⟩ := List.pairwise_append.1 hsorted
    rcases List.mem_append.1 he with he | he
    · cases (hnone _ he).symm.trans (versionFrom?_eq_some_iff.2 hpublishes)
    · rcases List.mem_cons.1 he with heq | he
      · exact (Prod.mk.inj heq).1 ▸ String.le_refl _
      · exact String.lt_asymm ((List.pairwise_cons.1 hless).1 _ he)
  · rintro ⟨x, d, hd, hpublishes, hgreatest⟩
    obtain ⟨greater, less, rfl⟩ := List.append_of_mem hd
    refine ⟨greater, (x, d), less, rfl, versionFrom?_eq_some_iff.2 hpublishes, ?_⟩
    rintro ⟨y, e⟩ he
    rw [Option.eq_none_iff_forall_ne_some]
    intro v hv
    have hle := hgreatest y e v (List.mem_append_left _ he) (versionFrom?_eq_some_iff.1 hv)
    have hlt : x < y := (List.pairwise_append.1 hsorted).2.2 _ he _ List.mem_cons_self
    exact hle hlt

end Imports

end Sitewright
