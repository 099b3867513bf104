import Sitewright.Proofs.Folder.Growth
import Sitewright.Proofs.Project.Keeping

/-!
# What becomes of the template

A project is generated into a copy of a template folder, which only grows on the way: its folders
and files stay where they are, and only the files that a section delivers, and the package manifest,
have another content afterwards.
-/

namespace Sitewright

open Folder

theorem Output.grown_addAll (o : Output) (deliveries : List Delivery) :
    Grown o.folder (o.addAll deliveries).folder := by
  induction deliveries generalizing o with
  | nil => exact Grown.refl _
  | cons d deliveries ih =>
    have hadd : Grown o.folder (o.add d).folder := grown_inject o.folder d.path d.files
    exact hadd.trans (ih (o.add d))

namespace Strategy

variable {s : Strategy} {p : Project} {template result : Folder} {mapping : Option Mapping}

theorem Run.delivered_eq_append_manifest (run : s.Run p template mapping result) :
    run.delivered = run.sections ++ [{ path := [], files := [run.manifest] }] := by
  simp only [delivered, afterComponents, sections, List.append_assoc]

theorem Run.at?_result_of_ne (run : s.Run p template mapping result) {path : List String}
    {name : String} {extension : Option String}
    (hne : ¬ (path = [] ∧ name = "package" ∧ extension = some "json")) :
    result.at? path name extension =
      (lastDelivered? run.sections path name extension).or (template.at? path name extension) := by
  have hmanifest : ¬ Delivers [{ path := [], files := [run.manifest] }] path name extension := by
    rintro ⟨d, hd, rfl, f, hf, hat⟩
    obtain rfl := List.mem_singleton.1 hd
    obtain rfl := List.mem_singleton.1 hf
    obtain ⟨hname, hextension⟩ := isAt_iff.1 run.isAt_manifest
    obtain ⟨hname', hextension'⟩ := isAt_iff.1 hat
    exact hne ⟨rfl, hname'.symm.trans hname, hextension'.symm.trans hextension⟩
  rw [run.at?_result, run.delivered_eq_append_manifest, lastDelivered?_append,
    lastDelivered?_eq_none hmanifest]
  rfl

/-- Whatever the template holds is found at the same place in the result. It is the same file unless
a section delivers a file under its key or it is the package manifest, and all folders and files
keep their order. -/
theorem template_survives (h : s.generate p template mapping = .ok result) :
    ∃ run : s.Run p template mapping result, Grown template result ∧
      ∀ path name extension f, template.at? path name extension = some f →
        (∃ g, result.at? path name extension = some g) ∧
        (¬ Delivers run.sections path name extension →
          ¬ (path = [] ∧ name = "package" ∧ extension = some "json") →
          result.at? path name extension = some f) := by
  obtain ⟨-, -, ⟨run⟩⟩ := exists_run h
  refine ⟨run, ?_, fun path name extension f hf => ⟨?_, fun hnot hne => ?_⟩⟩
  · rw [run.result_eq_addAll]
    exact Output.grown_addAll { folder := template } run.delivered
  · rw [run.at?_result, hf]
    cases lastDelivered? run.delivered path name extension with
    | none => exact ⟨f, rfl⟩
    | some g => exact ⟨g, rfl⟩
  · rw [run.at?_result_of_ne hne, lastDelivered?_eq_none hnot, hf]
    rfl

def kit : Folder where
  name := "kit"
  files := [.ofParts "twin" "css" "old", .ofParts "README" "md" "Twins"]

theorem template_survives_kit : ∃ result, stamps.generate twins kit none = .ok result ∧
    ∃ run : stamps.Run twins kit none result, Grown kit result ∧
      (∃ g, result.at? [] "README" (some "md") = some g) ∧
      Delivers run.sections [] "twin" (some "css") := by
  have hfile : (stamps.generate twins kit none).toOption.bind (·.at? [] "twin" (some "css")) =
      some (.ofParts "twin" "css" "Second") := by decide +kernel
  obtain ⟨result, hresult, hfound⟩ := Option.bind_eq_some_iff.1 hfile
  have hresult := Outcome.toOption_eq_some_iff.1 hresult
  obtain ⟨run, hgrown, hkept⟩ := template_survives hresult
  have hreadme : kit.at? [] "README" (some "md") = some (.ofParts "README" "md" "Twins") := by
    decide
  have htwin : kit.at? [] "twin" (some "css") = some (.ofParts "twin" "css" "old") := by decide
  refine ⟨result, hresult, run, hgrown, (hkept _ _ _ _ hreadme).1, ?_⟩
  by_contra hnot
  have hold := (hkept _ _ _ _ htwin).2 hnot (by simp)
  exact absurd (hold.symm.trans hfound) (by decide)

end Strategy

end Sitewright
