import Sitewright.Proofs.Folder.Keys
import Sitewright.Proofs.Project.Places

/-!
# Replacing a framework file

The file of the template that a framework writes anew is looked up by its name, and written under
the name and the extensions of what is linked. So the replacement changes nothing but files of that
name in that folder, and adds those whose extensions the folder did not have.
-/

namespace Sitewright.Strategy

open Outcome

/-- The section that writes a framework file of the template anew. -/
def replacing (s : Strategy) (p : Project) : Stage :=
  fun o => s.framework.replacement.toList.mapM (s.deliverReplacement p o)

def contextFor (s : Strategy) (p : Project) (o : Output) (file : FrameworkFile) :
    FrameworkContext :=
  { project := p, folder := o.folder, versions := o.versions, styleSheet := s.styleSheetFor file }

/-- What becomes of a folder when files are written for a framework file: all of them have its name,
and only files under their keys in its folder are added or changed. -/
structure Rewritten (file : FrameworkFile) (files : List File) (before after : Folder) : Prop where
  name_eq : ∀ f ∈ files, f.name = file.fileName
  elsewhere_eq : after.elsewhere file.path (files.map File.key) =
    before.elsewhere file.path (files.map File.key)
  mem_keys_iff : ∀ k, k ∈ after.keys ↔
    k ∈ before.keys ∨ k.1 = file.path ∧ k.2 ∈ files.map File.key

variable {s : Strategy} {p : Project} {file : FrameworkFile}
  {o o' : Output} {d : Delivery} {files : List File} {before after : Folder}

theorem exists_stages_eq (s : Strategy) (p : Project) (mapping : Option Mapping) :
    ∃ earlier, s.stages p mapping =
      earlier ++ [s.replacing p, fun _ => .ok (s.deliverWebManifest? p).toList] :=
  ⟨(s.stages p mapping).take 6, rfl⟩

/-- A folder keeps its keys if it has those of all files that are written. -/
theorem Rewritten.keys_kept_iff (h : Rewritten file files before after) :
    (∀ k, k ∈ after.keys ↔ k ∈ before.keys) ↔ ∀ f ∈ files, (file.path, f.key) ∈ before.keys := by
  constructor
  · intro hkept f hf
    exact (hkept _).1 ((h.mem_keys_iff _).2 (.inr ⟨rfl, List.mem_map_of_mem hf⟩))
  · rintro hall ⟨path, key⟩
    refine (h.mem_keys_iff _).trans (or_iff_left_of_imp ?_)
    rintro ⟨rfl, hkey⟩
    obtain ⟨f, hf, rfl⟩ := List.mem_map.1 hkey
    exact hall f hf

theorem runStage_replacing (hfile : s.framework.replacement = some file) :
    runStage o (s.replacing p) = (s.deliverReplacement p o file).map o.add := by
  rw [runStage, replacing, hfile]
  cases hd : s.deliverReplacement p o file with
  | error e => simp [hd, bind, Except.bind, Except.map]
  | ok d => simp [hd, bind, Except.bind, Except.map, pure, Except.pure, Output.addAll]

theorem rewritten_deliverFrameworkFile (h : s.deliverFrameworkFile p o file = .ok d) :
    Rewritten file d.files o.folder (o.add d).folder := by
  have hto := deliverFrameworkFile_isTo h
  have hadd : (o.add d).folder = o.folder.inject file.path d.files := by rw [Output.add, hto.path]
  rw [hadd]
  exact {
    name_eq := fun f hf => (hto.apart f hf).1
    elsewhere_eq := Folder.elsewhere_inject _ _ fun f hf => List.mem_map_of_mem hf
    mem_keys_iff := fun k => Folder.mem_keys_inject _ _ _ }

/-- The replacement is the last section of a run but for the web manifest. If it succeeds, it has
found a file of the name, has linked the content that is made for it, and changes nothing but files
of that name in that folder. The folder keeps its keys exactly if it had, for every linked file, one
with the same extension. -/
theorem replacement_keeps_keys_iff (hfile : s.framework.replacement = some file)
    (h : runStage o (s.replacing p) = .ok o') :
    (∀ mapping, ∃ earlier, s.stages p mapping =
      earlier ++ [s.replacing p, fun _ => .ok (s.deliverWebManifest? p).toList]) ∧
      holdsFile o.folder file = true ∧
      ∃ content files, file.content (s.contextFor p o file) = .ok content ∧
        file.generator.linkFiles content.chunks file.fileName = .ok files ∧
        Rewritten file files o.folder o'.folder ∧
        ((∀ k, k ∈ o'.folder.keys ↔ k ∈ o.folder.keys) ↔
          ∀ f ∈ files, (file.path, f.key) ∈ o.folder.keys) := by
  rw [runStage_replacing hfile, map_ok_iff] at h
  obtain ⟨d, hd, rfl⟩ := h
  rw [deliverReplacement] at hd
  split at hd
  · next hholds =>
    have hrewritten := rewritten_deliverFrameworkFile hd
    obtain ⟨content, hcontent, hlink⟩ := bind_ok_iff.1 hd
    obtain ⟨files, hfiles, hdelivery⟩ := bind_ok_iff.1 hlink
    cases hdelivery
    exact ⟨s.exists_stages_eq p, hholds, content, files, hcontent, hfiles, hrewritten,
      hrewritten.keys_kept_iff⟩
  · cases hd

def themeFile : FrameworkFile where
  generator := .entryFile
  path := []
  fileName := "theme"
  content _ := .ok { chunks := .ofList [.ofText "theme" .js "export default 1"], versions := ∅ }

def themed : Strategy := { Strategy.html with framework := { replacement := some themeFile } }

def shop : Project where
  name := "Shop"
  root := { name := "App", node := .text "" }

def templateOf (extension content : String) : Output :=
  { folder := { name := "shop", files := [.ofParts "theme" extension content] } }

theorem replacement_keeps_keys_iff_script :
    themed.framework.replacement = some themeFile ∧
      runStage (templateOf "js" "old") (themed.replacing shop) =
        .ok (templateOf "js" "export default 1\n") ∧
      ∀ k, k ∈ (templateOf "js" "export default 1\n").folder.keys ↔
        k ∈ (templateOf "js" "old").folder.keys := by
  have hrun : runStage (templateOf "js" "old") (themed.replacing shop) =
      .ok (templateOf "js" "export default 1\n") := by rfl
  obtain ⟨-, -, content, files, hcontent, hlink, -, hkept⟩ := replacement_keeps_keys_iff rfl hrun
  cases hcontent
  obtain rfl : [File.ofParts "theme" "js" "export default 1\n"] = files := Except.ok.inj hlink
  refine ⟨rfl, hrun, hkept.2 fun f hf => ?_⟩
  obtain rfl := List.mem_singleton.1 hf
  exact List.mem_singleton_self _

/-- The template has the file as `theme.json` only, and the replacement adds `theme.js` to it. -/
theorem replacement_adds_file :
    runStage (templateOf "json" "old") (themed.replacing shop) =
        .ok { folder := { name := "shop", files := [.ofParts "theme" "json" "old",
            .ofParts "theme" "js" "export default 1\n"] } } ∧
      ([], "theme", some "js") ∉ (templateOf "json" "old").folder.keys ∧
      ([], "theme", some "js") ∈ Folder.keys { name := "shop", files :=
        [.ofParts "theme" "json" "old", .ofParts "theme" "js" "export default 1\n"] } :=
  ⟨by rfl, by decide, by decide⟩

end Sitewright.Strategy
