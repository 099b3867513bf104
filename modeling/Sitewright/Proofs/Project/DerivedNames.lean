import Sitewright.Proofs.Project.Checks
import Sitewright.Proofs.Text.Identifiers

/-!
# Names derived from a project

The checks of a project see to it that no name in it is blank. The file names, class names and the
package name that are derived from such names are usable under a stronger condition: they are made
of ASCII letters and digits, and a class name begins with the first of them.
-/

namespace Sitewright

open Outcome

variable {p : Project}

def Project.written (p : Project) : List Component :=
  p.pages.map (·.component) ++ p.components.values

theorem Project.name_not_blank (h : p.validate = .ok ()) :
    isBlankText p.name = false ∧ ∀ c ∈ p.written, isBlankText c.name = false := by
  obtain ⟨hname, hpages, -, hcomponents⟩ := validate_ok_iff.1 h
  refine ⟨hname, fun c hc => ?_⟩
  rcases List.mem_append.1 hc with hc | hc
  · obtain ⟨page, hpage, rfl⟩ := List.mem_map.1 hc
    exact hpages page hpage
  · obtain ⟨e, he, rfl⟩ := List.mem_map.1 hc
    exact hcomponents e he

/-- In a project that passes its checks no name is blank. A file name or class name that the output
options do not give is there if and only if the name has an ASCII letter or digit, and the class
name is an identifier if and only if the first of these is a letter. The package name is there if
and only if a character of the name is an ASCII letter or digit, or has one in its lower-case
form. -/
theorem derived_names_usable_iff (h : p.validate = .ok ()) :
    (isBlankText p.name = false ∧ (slug p.name ≠ "" ↔
      ∃ a ∈ p.name.toList, a.isAlphanum = true ∨ a = '\u0130' ∨ a = '\u212a')) ∧
    ∀ c ∈ p.written, isBlankText c.name = false ∧
      (c.output.fileName = none →
        (c.fileName ≠ "" ↔ ∃ a ∈ c.name.toList, a.isAlphanum = true)) ∧
      (c.output.className = none →
        (c.className ≠ "" ↔ ∃ a ∈ c.name.toList, a.isAlphanum = true) ∧
        (IsIdentifier c.className ↔
          ∃ a, c.name.toList.find? Char.isAlphanum = some a ∧ a.isAlpha = true)) := by
  obtain ⟨hname, hnames⟩ := p.name_not_blank h
  refine ⟨⟨hname, slug_ne_empty_iff⟩, fun c hc => ⟨hnames c hc, fun hfile => ?_, fun hclass => ?_⟩⟩
  · rw [Component.fileName, hfile, Option.getD_none]
    exact dashCase_ne_empty_iff
  · rw [Component.className, hclass, Option.getD_none]
    exact ⟨upperCamelCase_ne_empty_iff, isIdentifier_upperCamelCase_iff⟩

def named (name : String) : Component where
  name := name
  node := .text ""

def nameless : Project where
  name := "日本"
  root := named "App"
  pages := [{ navLink := "/", component := named "2 columns" }]
  components := Table.ofList [("Map", named "地図")]

theorem derived_names_usable_iff_nameless :
    nameless.validate = .ok () ∧ ¬ slug nameless.name ≠ "" ∧
      (named "2 columns").fileName ≠ "" ∧ ¬ IsIdentifier (named "2 columns").className := by
  have haccepted : nameless.validate = .ok () := by decide
  obtain ⟨⟨-, hslug⟩, hnames⟩ := derived_names_usable_iff haccepted
  obtain ⟨-, hfile, hclass⟩ := hnames (named "2 columns") (by simp [Project.written, nameless])
  refine ⟨haccepted, ?_, ?_, ?_⟩
  · rw [hslug]
    rintro ⟨a, ha, hcounts⟩
    obtain rfl | rfl : a = '日' ∨ a = '本' := by simpa [nameless] using ha
    · exact absurd hcounts (by decide)
    · exact absurd hcounts (by decide)
  · rw [hfile rfl]
    exact ⟨'2', by decide, rfl⟩
  · rw [(hclass rfl).2]
    rintro ⟨a, hfind, halpha⟩
    have hdigit : (named "2 columns").name.toList.find? Char.isAlphanum = some '2' := by decide
    obtain rfl := Option.some.inj (hdigit.symm.trans hfind)
    cases halpha

/-- The project passes its checks, but its package and the component have no names, and the class of
the page is no identifier. -/
theorem derived_names_unusable :
    nameless.validate = .ok () ∧ slug nameless.name = "" ∧ named "地図" ∈ nameless.written ∧
      (named "地図").fileName = "" ∧ (named "地図").className = "" ∧
      named "2 columns" ∈ nameless.written ∧ (named "2 columns").className = "2Columns" ∧
      ¬ IsIdentifier "2Columns" := by
  have hvalues : nameless.components.values = [named "地図"] := rfl
  refine ⟨by decide, by decide, ?_, by decide, by decide, ?_, by decide, by decide⟩
  · rw [Project.written, hvalues]
    exact List.mem_append_right _ List.mem_cons_self
  · simp [Project.written, nameless]

end Sitewright
