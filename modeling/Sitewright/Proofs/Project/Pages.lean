import Sitewright.Proofs.Project.Checks
import Sitewright.Proofs.Project.Keeping

/-!
# Files of pages

A project that passes its checks has no two pages with one output key, so its pages go to different
places, with or without folders of their own. Their section therefore overwrites none of the files
that it writes.
-/

namespace Sitewright

open Outcome

theorem Project.nodup_outputKeys {p : Project} (h : p.validate = .ok ()) :
    (p.pages.map (·.component.outputKey)).Nodup :=
  (validate_ok_iff.1 h).2.2.1

/-- Components with one place in a section have one output key. -/
theorem ComponentSection.outputKey_eq_of_placement_eq {part : ComponentSection} {c other : Component}
    (h : part.placement c = part.placement other) : c.outputKey = other.outputKey := by
  rw [Component.outputKey, Component.outputKey]
  rw [placement, placement] at h
  cases hown : part.ownFolders with
  | true => simpa [hown] using h
  | false =>
    have hparts : c.output.folderPath = other.output.folderPath ∧ c.fileName = other.fileName := by
      simpa [hown] using h
    rw [hparts.1, hparts.2]

namespace Strategy

variable {s : Strategy} {p : Project}

theorem nodup_placements (h : p.validate = .ok ()) (part : ComponentSection) :
    ((p.pages.map (·.component)).map part.placement).Nodup := by
  have hkeys := p.nodup_outputKeys h
  rw [List.map_map, List.Nodup, List.pairwise_map] at *
  exact hkeys.imp fun hne heq => hne (ComponentSection.outputKey_eq_of_placement_eq heq)

/-- Right after the section of the pages, which is the second one, every file that was generated for a
page is where the page goes. -/
theorem pages_keep_their_files (s : Strategy) (p : Project) (hp : p.validate = .ok ()) :
    ((p.pages.map (·.component)).map s.pages.placement).Nodup ∧
    ∀ template mapping o,
      ((s.stages p mapping).take 2).foldlM runStage { folder := template } = .ok o →
      ∀ c ∈ p.pages.map (·.component), ∃ compiled,
        s.pages.generator.generate (c.renamed (s.pages.placement c).fileName)
          (s.optionsFor p (s.pages.placement c).folder mapping false) = .ok compiled ∧
        ∀ f ∈ compiled.files, f.name = (s.pages.placement c).fileName ∧
          o.folder.at? (s.pages.placement c).folder f.name f.extension = some f := by
  have hplaces := nodup_placements hp s.pages
  refine ⟨hplaces, fun template mapping o h c hc => ?_⟩
  simp only [stages, List.take_succ_cons, List.take_zero, List.foldlM_cons, List.foldlM_nil,
    runStage, bind_ok_iff, map_ok_iff] at h
  obtain ⟨before, -, _, ⟨pages, hpages, rfl⟩, ⟨⟩⟩ := h
  obtain ⟨d, hd⟩ := exists_mapM_ok_iff.1 ⟨pages, hpages⟩ c hc
  obtain ⟨compiled, hcompiled, rfl⟩ := deliver_ok_iff.1 hd
  refine ⟨compiled, hcompiled, fun f hf => ⟨((deliver_isTo hd).apart f hf).1, ?_⟩⟩
  have hlast := lastDelivered?_of_mapM hpages (fun _ _ => deliver_isTo) hplaces hc hd hf
  rw [Output.at?_addAll, hlast]
  rfl

def shelves : Strategy where
  id := "shelves"
  components := { generator := { plugins := [stamp] }, path := [] }
  pages := { generator := { plugins := [stamp] }, path := [], ownFolders := true }

def homePage : Component where
  name := "Home"
  node := .text ""
  output := { folderPath := ["shop"] }

def shelf : Project where
  name := "shelf"
  root := { name := "App", node := .text "" }
  pages := [⟨"/", homePage⟩, ⟨"/shop", { name := "Shop", node := .text "" }⟩]
  components := ⟨[("a", { name := "Box", node := .text "", output :=
    { fileName := some "index", folderPath := ["shop", "home"] } })], List.pairwise_singleton _ _⟩

theorem pages_keep_their_files_shelf : ∃ o,
    shelf.validate = .ok () ∧
    ((shelves.stages shelf none).take 2).foldlM runStage { folder := { name := "shelf" } } = .ok o ∧
    shelves.pages.placement homePage = ⟨["shop", "home"], "index"⟩ ∧
    o.folder.at? ["shop", "home"] "index" (some "css") =
      some (.ofParts "index" "css" "Home") := by
  have hvalid : shelf.validate = .ok () := by decide +kernel
  have hrun : (((shelves.stages shelf none).take 2).foldlM runStage
      { folder := { name := "shelf" } }).toOption.isSome = true := by decide +kernel
  have hfiles : (shelves.pages.generator.generate (homePage.renamed "index")
      (shelves.optionsFor shelf ["shop", "home"] none false)).toOption.map (·.files) =
        some [.ofParts "index" "css" "Home"] := by decide +kernel
  have hplace : shelves.pages.placement homePage = ⟨["shop", "home"], "index"⟩ := by decide +kernel
  obtain ⟨o, ho⟩ := Option.isSome_iff_exists.1 hrun
  have ho := toOption_eq_some_iff.1 ho
  obtain ⟨-, hkept⟩ := pages_keep_their_files shelves shelf hvalid
  obtain ⟨compiled, hcompiled, hfound⟩ := hkept _ _ o ho homePage (by simp [shelf])
  rw [hplace] at hcompiled hfound
  rw [hcompiled] at hfiles
  have hall : compiled.files = [.ofParts "index" "css" "Home"] := Option.some.inj hfiles
  have hmem : File.ofParts "index" "css" "Home" ∈ compiled.files := by simp [hall]
  exact ⟨o, hvalid, ho, hplace, (hfound _ hmem).2⟩

end Strategy

end Sitewright
