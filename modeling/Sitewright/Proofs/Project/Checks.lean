import Mathlib.Data.List.Nodup
import Sitewright.Project.Basic
import Sitewright.Proofs.Outcome

/-!
# Checks of a project

A project passes its checks exactly if none of its names is blank and no two of its pages have one
output key.
-/

namespace Sitewright

open Outcome

/-- Pages pass their check exactly when they have names, and output keys that differ from each other
and from those that are taken. -/
theorem checkPages_ok_iff {taken : List (List String)} {pages : List Page} :
    checkPages taken pages = .ok () ↔ (∀ page ∈ pages, isBlankText page.component.name = false) ∧
      (pages.map (·.component.outputKey)).Nodup ∧
      ∀ page ∈ pages, page.component.outputKey ∉ taken := by
  induction pages generalizing taken with
  | nil => simp [checkPages]
  | cons page pages ih =>
    rw [checkPages]
    by_cases hblank : isBlankText page.component.name = true
    · simp [hblank]
    · by_cases htaken : page.component.outputKey ∈ taken
      · simp [hblank, htaken]
      · rw [if_neg hblank, if_neg (by simpa using htaken), ih, List.map_cons, List.nodup_cons,
          List.forall_mem_cons, List.forall_mem_cons]
        simp only [List.mem_cons, not_or, List.mem_map, not_exists, not_and]
        constructor
        · rintro ⟨hnames, hnodup, hkeys⟩
          exact ⟨⟨by simpa using hblank, hnames⟩,
            ⟨fun other hother => (hkeys other hother).1, hnodup⟩, htaken,
            fun other hother => (hkeys other hother).2⟩
        · rintro ⟨⟨-, hnames⟩, ⟨hnew, hnodup⟩, -, hkeys⟩
          exact ⟨hnames, hnodup, fun other hother => ⟨hnew other hother, hkeys other hother⟩⟩

theorem checkComponents_ok_iff {entries : List (String × Component)} :
    checkComponents entries = .ok () ↔ ∀ e ∈ entries, isBlankText e.2.name = false := by
  induction entries with
  | nil => simp [checkComponents]
  | cons e entries ih =>
    rw [checkComponents]
    by_cases hblank : isBlankText e.2.name = true
    · simp [hblank]
    · rw [if_neg hblank, ih, List.forall_mem_cons]
      simp [hblank]

theorem Project.validate_ok_iff {p : Project} : p.validate = .ok () ↔ isBlankText p.name = false ∧
    (∀ page ∈ p.pages, isBlankText page.component.name = false) ∧
      (p.pages.map (·.component.outputKey)).Nodup ∧
        ∀ e ∈ p.components.entries, isBlankText e.2.name = false := by
  rw [validate]
  cases hname : isBlankText p.name with
  | true => simp [bind, Except.bind]
  | false =>
    rw [if_neg (by simp), bind_ok_iff]
    constructor
    · rintro ⟨⟨⟩, hpages, hcomponents⟩
      obtain ⟨hnames, hkeys, -⟩ := checkPages_ok_iff.1 hpages
      exact ⟨rfl, hnames, hkeys, checkComponents_ok_iff.1 hcomponents⟩
    · rintro ⟨-, hnames, hkeys, hcomponents⟩
      exact ⟨(), checkPages_ok_iff.2 ⟨hnames, hkeys, by simp⟩, checkComponents_ok_iff.2 hcomponents⟩

end Sitewright
