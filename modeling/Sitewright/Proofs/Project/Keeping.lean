import Sitewright.Proofs.Project.Places

/-!
# Files of shared components in the result

Nothing keeps two shared components, or a component and the file of a later section, from going to
one place. A file of a shared component is in the result exactly when what is delivered there last
is the same file, and so all of them are if the place of the component is not written again.
-/

namespace Sitewright.Strategy

open Outcome

variable {s : Strategy} {p : Project} {template result : Folder} {mapping : Option Mapping}
  {c : Component} {f : File} {i : Nat}

theorem Run.exists_compiled (run : s.Run p template mapping result)
    (hc : p.components.values[i]? = some c) : ∃ compiled,
      s.components.generator.generate (c.renamed (s.components.placement c).fileName)
        (s.optionsFor p (s.components.placement c).folder mapping false) = .ok compiled ∧
      run.components[i]? = some (compiled.deliveredTo (s.components.placement c).folder) := by
  have hlength := length_of_mapM_ok run.mapM_components
  have hi : i < run.components.length := by
    obtain ⟨hi, -⟩ := List.getElem?_eq_some_iff.1 hc
    omega
  have hd := List.getElem?_eq_getElem hi
  obtain ⟨c', hc', hdeliver⟩ := (getElem?_of_mapM_ok run.mapM_components).1 hd
  obtain rfl : c = c' := Option.some.inj (hc.symm.trans hc')
  obtain ⟨compiled, hcompiled, hdelivery⟩ := deliver_ok_iff.1 hdeliver
  exact ⟨compiled, hcompiled, hdelivery ▸ hd⟩

theorem Run.delivered_eq (run : s.Run p template mapping result) {d : Delivery}
    (hd : run.components[i]? = some d) :
    run.delivered = run.components.take i ++ d :: run.after i := by
  obtain ⟨hi, hd⟩ := List.getElem?_eq_some_iff.1 hd
  have hcomponents : run.components =
      run.components.take i ++ d :: run.components.drop (i + 1) := by
    rw [← hd, List.getElem_cons_drop, List.take_append_drop]
  rw [delivered, after, ← List.cons_append, ← List.append_assoc, ← hcomponents]

/-- A file of a delivery is in the result exactly when what is delivered after it under its key is
the same file. -/
theorem Run.at?_eq_some_iff (run : s.Run p template mapping result) {d : Delivery}
    (hd : run.components[i]? = some d) {fileName : String} (hfiles : Apart fileName d.files)
    (hf : f ∈ d.files) : result.at? d.path f.name f.extension = some f ↔
      ∀ g, lastDelivered? (run.after i) d.path f.name f.extension = some g → g = f := by
  have hown : lastDelivered? (d :: run.after i) d.path f.name f.extension =
      (lastDelivered? (run.after i) d.path f.name f.extension).or (some f) := by
    rw [lastDelivered?, if_pos rfl, hfiles.lastFile? hf]
  rw [run.at?_result, run.delivered_eq hd, lastDelivered?_append, hown]
  cases lastDelivered? (run.after i) d.path f.name f.extension with
  | none => simp
  | some g => simp

/-- A place that is not written again keeps the file that was delivered to it. -/
theorem Run.lastDelivered?_after_eq_none (run : s.Run p template mapping result)
    {place : Placement} (hplace : place ∉ s.placesAfter p i) (extension : Option String) :
    lastDelivered? (run.after i) place.folder place.fileName extension = none :=
  (run.within_after i).lastDelivered?_eq_none hplace extension

/-- A file of a shared component is in the result, at the place of the component, exactly when what
is delivered there after it is the same file. -/
theorem component_files_kept_iff (h : s.generate p template mapping = .ok result) :
    ∃ run : s.Run p template mapping result, ∀ i c, p.components.values[i]? = some c →
      ∃ compiled,
        s.components.generator.generate (c.renamed (s.components.placement c).fileName)
          (s.optionsFor p (s.components.placement c).folder mapping false) = .ok compiled ∧
        (∀ f ∈ compiled.files, f.name = (s.components.placement c).fileName ∧
          (result.at? (s.components.placement c).folder f.name f.extension = some f ↔
            ∀ g, lastDelivered? (run.after i) (s.components.placement c).folder f.name
              f.extension = some g → g = f)) ∧
        (s.components.placement c ∉ s.placesAfter p i → ∀ f ∈ compiled.files,
          result.at? (s.components.placement c).folder f.name f.extension = some f) := by
  obtain ⟨-, -, ⟨run⟩⟩ := exists_run h
  refine ⟨run, fun i c hc => ?_⟩
  obtain ⟨compiled, hcompiled, hd⟩ := run.exists_compiled hc
  have hfiles := Generator.apart_generate hcompiled
  have hname : ∀ f ∈ compiled.files, f.name = (s.components.placement c).fileName :=
    fun f hf => (hfiles f hf).1
  refine ⟨compiled, hcompiled, fun f hf => ⟨hname f hf, run.at?_eq_some_iff hd hfiles hf⟩, ?_⟩
  intro hplace f hf
  refine (run.at?_eq_some_iff hd hfiles hf).2 fun g hg => ?_
  have hnone := run.lastDelivered?_after_eq_none hplace f.extension
  rw [← hname f hf] at hnone
  cases hnone.symm.trans hg

def stamp : Plugin where
  name := "stamp"
  run d := .ok (d.addChunks [.ofText "stamp" .css d.component.name])

def stamps : Strategy where
  id := "stamps"
  components := { generator := { plugins := [stamp] }, path := [] }
  pages := { generator := { plugins := [stamp] }, path := [] }

def twin (name : String) : Component where
  name
  node := .text ""
  output := { fileName := some "twin" }

def twins : Project where
  name := "twins"
  root := { name := "App", node := .text "" }
  components := ⟨[("a", twin "First"), ("b", twin "Second")], List.pairwise_pair.2 (by decide)⟩

/-- Only the file of the second twin is in the result. -/
theorem generate_twins : ∃ result, stamps.generate twins { name := "twins" } none = .ok result ∧
    result.at? [] "twin" (some "css") = some (.ofParts "twin" "css" "Second") := by
  have hfile : (stamps.generate twins { name := "twins" } none).toOption.bind
      (·.at? [] "twin" (some "css")) = some (.ofParts "twin" "css" "Second") := by decide +kernel
  obtain ⟨result, hresult, hfound⟩ := Option.bind_eq_some_iff.1 hfile
  exact ⟨result, toOption_eq_some_iff.1 hresult, hfound⟩

theorem files_first : (stamps.components.generator.generate ((twin "First").renamed "twin")
    (stamps.optionsFor twins [] none false)).toOption.map (·.files) =
      some [.ofParts "twin" "css" "First"] := by decide +kernel

theorem component_files_kept_iff_twins : ∃ result,
    stamps.generate twins { name := "twins" } none = .ok result ∧
    ∃ run : stamps.Run twins { name := "twins" } none result, ∃ g,
      lastDelivered? (run.after 0) [] "twin" (some "css") = some g ∧
        g ≠ .ofParts "twin" "css" "First" := by
  obtain ⟨result, hresult, hfile⟩ := generate_twins
  obtain ⟨run, hrun⟩ := component_files_kept_iff hresult
  obtain ⟨compiled, hcompiled, hkept, -⟩ := hrun 0 (twin "First") rfl
  have hfiles : compiled.files = [.ofParts "twin" "css" "First"] :=
    Option.some.inj ((congrArg (·.toOption.map (·.files)) hcompiled).symm.trans files_first)
  have hmem : File.ofParts "twin" "css" "First" ∈ compiled.files := by simp [hfiles]
  refine ⟨result, hresult, run, ?_⟩
  by_contra hnone
  have hfirst := (hkept _ hmem).2.2 fun g hg => by_contra fun hne => hnone ⟨g, hg, hne⟩
  exact absurd (hfirst.symm.trans hfile) (by decide)

/-- The file of the first twin is lost, although project and strategy pass their checks. -/
theorem component_file_lost : ∃ result,
    twins.validate = .ok () ∧ stamps.validate = .ok () ∧
    stamps.generate twins { name := "twins" } none = .ok result ∧
    (stamps.components.generator.generate ((twin "First").renamed "twin")
      (stamps.optionsFor twins [] none false)).toOption.map (·.files) =
        some [.ofParts "twin" "css" "First"] ∧
    result.at? [] "twin" (some "css") ≠ some (.ofParts "twin" "css" "First") := by
  obtain ⟨result, hresult, hfile⟩ := generate_twins
  obtain ⟨hproject, hstrategy, -⟩ := exists_run hresult
  refine ⟨result, hproject, hstrategy, hresult, files_first, ?_⟩
  rw [hfile]
  decide

end Sitewright.Strategy
