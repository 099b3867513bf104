import Sitewright.Proofs.Project.Keeping

/-!
# Files below the output folder

The checks of a strategy keep the folders of its sections below the output folder, and the names of
its own files are bad only if they are `.` or `..`. The folders and file names that components bring
along are not checked, and so the files of a project stay below exactly when the components that are
written and the named files keep to that themselves.
-/

namespace Sitewright

open Outcome Strategy

variable {c : Component} {d : Delivery} {place : Placement} {part : ComponentSection}

/-- A place below the output folder: no step to it stays, leads up or is no name of a folder. -/
structure Placement.IsBelow (place : Placement) : Prop where
  folder : ∀ segment ∈ place.folder, isBadSegment segment = false
  fileName : isBadSegment place.fileName = false

structure ComponentSection.KeepsBelow (part : ComponentSection) (c : Component) : Prop where
  folders : ∀ segment ∈ c.output.folderPath, isBadSegment segment = false
  fileName : isBadSegment c.fileName = false
  fileInOwnFolder : part.ownFolders = true → isBadSegment (part.fileName.getD "index") = false

theorem ComponentSection.isBelow_placement_iff
    (hpath : ∀ segment ∈ part.path, isBadSegment segment = false) :
    (part.placement c).IsBelow ↔ part.KeepsBelow c := by
  rw [placement]
  cases hown : part.ownFolders with
  | true =>
    constructor
    · rintro ⟨hfolder, hname⟩
      simp only [if_true, List.forall_mem_append, List.forall_mem_singleton] at hfolder hname
      exact ⟨hfolder.1.2, hfolder.2, fun _ => hname⟩
    · rintro ⟨hfolders, hname, hindex⟩
      refine ⟨?_, hindex hown⟩
      simp only [if_true, List.forall_mem_append, List.forall_mem_singleton]
      exact ⟨⟨hpath, hfolders⟩, hname⟩
  | false =>
    simp only [Bool.false_eq_true, if_false]
    constructor
    · rintro ⟨hfolder, hname⟩
      exact ⟨(List.forall_mem_append.1 hfolder).2, hname, fun h => by simp [hown] at h⟩
    · rintro ⟨hfolders, hname, -⟩
      exact ⟨List.forall_mem_append.2 ⟨hpath, hfolders⟩, hname⟩

/-- All files of a delivery stay below the output folder. -/
def Delivery.StaysBelow (d : Delivery) : Prop :=
  ∀ f ∈ d.files, Placement.IsBelow ⟨d.path, f.name⟩

theorem Delivery.IsTo.staysBelow_iff (h : d.IsTo place) :
    d.StaysBelow ↔ (d.files ≠ [] → place.IsBelow) := by
  have hplace : ∀ f ∈ d.files, (⟨d.path, f.name⟩ : Placement) = place := by
    intro f hf
    rw [h.path, (h.apart f hf).1]
  constructor
  · intro hbelow hne
    obtain ⟨f, hf⟩ := List.exists_mem_of_ne_nil _ hne
    exact hplace f hf ▸ hbelow f hf
  · intro hbelow f hf
    rw [hplace f hf]
    exact hbelow (List.ne_nil_of_mem hf)

namespace Strategy

variable {s : Strategy} {p : Project} {template result : Folder} {mapping : Option Mapping}
  {area fileName : String} {path : List String}

theorem checkFileName_ok_iff : checkFileName area fileName = .ok () ↔
    isBlankText fileName = false ∧ '/' ∉ fileName.toList := by
  rw [checkFileName]
  cases hblank : isBlankText fileName with
  | true => simp
  | false => simp

theorem checkPath_ok_iff :
    checkPath area path = .ok () ↔ ∀ segment ∈ path, isBadSegment segment = false := by
  rw [checkPath]
  cases h : path.find? isBadSegment with
  | none => simpa using h
  | some segment =>
    have hbad := List.find?_some h
    have hmem := List.mem_of_find?_eq_some h
    simpa using ⟨segment, hmem, hbad⟩

theorem validate_ok_iff : s.validate = .ok () ↔
    (∀ e ∈ s.namedFiles, checkFileName e.1 e.2.2 = .ok ()) ∧
      ∀ e ∈ s.paths, checkPath e.1 e.2 = .ok () := by
  rw [validate, bind_ok_iff, ← forM_ok_iff, ← forM_ok_iff]
  constructor
  · rintro ⟨⟨⟩, hfiles, hpaths⟩
    exact ⟨hfiles, hpaths⟩
  · rintro ⟨hfiles, hpaths⟩
    exact ⟨(), hfiles, hpaths⟩

/-- A file name that passes its check is bad only if it is that of a folder itself or of the folder
above. -/
theorem isBadSegment_eq_false_iff (h : checkFileName area fileName = .ok ()) :
    isBadSegment fileName = false ↔ fileName ≠ "." ∧ fileName ≠ ".." := by
  obtain ⟨hblank, hslash⟩ := checkFileName_ok_iff.1 h
  have hne : fileName ≠ "" := by
    rintro rfl
    cases hblank
  simp [isBadSegment, hne, hslash]

theorem staysBelow_section (hpath : ∀ segment ∈ part.path, isBadSegment segment = false)
    {components : List Component} {deliveries : List Delivery}
    (h : components.mapM (s.deliver p mapping part) = .ok deliveries) :
    (∀ d ∈ deliveries, d.StaysBelow) ↔ ∀ c ∈ components,
      (∃ d, s.deliver p mapping part c = .ok d ∧ d.files ≠ []) → part.KeepsBelow c := by
  constructor
  · rintro hbelow c hc ⟨d, hd, hne⟩
    have hstays := hbelow d ((mem_of_mapM_ok h).2 ⟨c, hc, hd⟩)
    exact (ComponentSection.isBelow_placement_iff hpath).1
      ((deliver_isTo hd).staysBelow_iff.1 hstays hne)
  · intro hkeeps d hd
    obtain ⟨c, hc, hd⟩ := (mem_of_mapM_ok h).1 hd
    refine (deliver_isTo hd).staysBelow_iff.2 fun hne => ?_
    exact (ComponentSection.isBelow_placement_iff hpath).2 (hkeeps c hc ⟨d, hd, hne⟩)

def Run.named (run : s.Run p template mapping result) : List Delivery :=
  run.router ++ run.entry ++ run.styleSheet ++ run.config ++ run.replacement

theorem Run.within_named (run : s.Run p template mapping result) :
    Within run.named (s.namedFiles.map fun e => ⟨e.2.1, e.2.2⟩) := by
  have hrouter := within_of_mapM run.mapM_router _ fun _ _ => deliverRouter_isTo
  have hentry := within_of_mapM run.mapM_entry _ fun _ _ => deliverEntry_isTo
  have hsheet := within_of_mapM run.mapM_styleSheet _ fun _ _ => deliverStyleSheet_isTo
  have hconfig := within_of_mapM run.mapM_config _ fun _ _ => deliverFrameworkFile_isTo
  have hreplacement := within_of_mapM run.mapM_replacement _ fun _ _ => deliverReplacement_isTo
  simp only [namedFiles, List.map_append, Option.toList_map, List.map_map]
  exact (((hrouter.append hentry).append hsheet).append hconfig).append hreplacement

theorem Run.delivered_eq_sections (run : s.Run p template mapping result) :
    run.delivered = run.components ++ (run.pages ++ (run.named ++
      ((s.deliverWebManifest? p).toList ++ [{ path := [], files := [run.manifest] }]))) := by
  simp only [delivered, afterComponents, named, List.append_assoc]

theorem Run.staysBelow_named (run : s.Run p template mapping result) (hs : s.validate = .ok ()) :
    (∀ d ∈ run.named, d.StaysBelow) ↔ ∀ e ∈ s.namedFiles,
      (∃ d ∈ run.named, d.IsTo ⟨e.2.1, e.2.2⟩ ∧ d.files ≠ []) → e.2.2 ≠ "." ∧ e.2.2 ≠ ".." := by
  obtain ⟨hfiles, hpaths⟩ := validate_ok_iff.1 hs
  constructor
  · rintro hbelow e he ⟨d, hd, hto, hne⟩
    have hplace := hto.staysBelow_iff.1 (hbelow d hd) hne
    exact (isBadSegment_eq_false_iff (hfiles e he)).1 hplace.fileName
  · intro hnames d hd
    obtain ⟨place, hplace, hto⟩ := run.within_named d hd
    obtain ⟨e, he, rfl⟩ := List.mem_map.1 hplace
    have hpath : (e.1, e.2.1) ∈ s.paths := List.mem_append_right _ (List.mem_map_of_mem he)
    refine hto.staysBelow_iff.2 fun hne => ⟨checkPath_ok_iff.1 (hpaths _ hpath), ?_⟩
    exact (isBadSegment_eq_false_iff (hfiles e he)).2 (hnames e he ⟨d, hd, hto, hne⟩)

/-- The manifests are always written below the output folder. -/
theorem Run.staysBelow_manifests (run : s.Run p template mapping result) (hs : s.validate = .ok ()) :
    ∀ d ∈ (s.deliverWebManifest? p).toList ++ [{ path := [], files := [run.manifest] }],
      d.StaysBelow := by
  have hstatics : ∀ segment ∈ s.statics.path, isBadSegment segment = false :=
    checkPath_ok_iff.1 ((validate_ok_iff.1 hs).2 ("static", s.statics.path) (by simp [paths]))
  rw [List.forall_mem_append, List.forall_mem_singleton]
  constructor
  · intro d hd
    exact (deliverWebManifest_isTo (Option.mem_toList.1 hd)).staysBelow_iff.2 fun _ =>
      ⟨hstatics, (by decide : isBadSegment "manifest" = false)⟩
  · intro f hf
    rw [List.mem_singleton.1 hf, (Folder.isAt_iff.1 run.isAt_manifest).1]
    exact ⟨by simp, (by decide : isBadSegment "package" = false)⟩

/-- Besides the files that are delivered, those of the template stay as they are. All delivered files
stay below the output folder exactly when the components and pages that are written go by good
folders and names, and no file of another section that is written is called `.` or `..`. -/
theorem files_below_iff (h : s.generate p template mapping = .ok result) :
    ∃ run : s.Run p template mapping result,
      (∀ path name extension, result.at? path name extension =
        (lastDelivered? run.delivered path name extension).or
          (template.at? path name extension)) ∧
      ((∀ d ∈ run.delivered, d.StaysBelow) ↔
        (∀ c ∈ p.components.values,
          (∃ d, s.deliver p mapping s.components c = .ok d ∧ d.files ≠ []) →
            s.components.KeepsBelow c) ∧
        (∀ c ∈ p.pages.map (·.component),
          (∃ d, s.deliver p mapping s.pages c = .ok d ∧ d.files ≠ []) → s.pages.KeepsBelow c) ∧
        ∀ e ∈ s.namedFiles, (∃ d ∈ run.named, d.IsTo ⟨e.2.1, e.2.2⟩ ∧ d.files ≠ []) →
          e.2.2 ≠ "." ∧ e.2.2 ≠ "..") := by
  obtain ⟨-, hs, ⟨run⟩⟩ := exists_run h
  have hpaths := (validate_ok_iff.1 hs).2
  have hcomponents := checkPath_ok_iff.1 (hpaths ("components", s.components.path) (by simp [paths]))
  have hpages := checkPath_ok_iff.1 (hpaths ("pages", s.pages.path) (by simp [paths]))
  refine ⟨run, run.at?_result, ?_⟩
  rw [run.delivered_eq_sections, List.forall_mem_append, List.forall_mem_append,
    List.forall_mem_append, staysBelow_section hcomponents run.mapM_components,
    staysBelow_section hpages run.mapM_pages, run.staysBelow_named hs,
    and_iff_left (run.staysBelow_manifests hs)]

def strayPage : Component where
  name := "Home"
  node := .text ""
  output := { folderPath := [".."] }

def stray : Project where
  name := "stray"
  root := { name := "App", node := .text "" }
  pages := [⟨"/", strayPage⟩]

theorem generate_stray : ∃ result, stamps.generate stray { name := "stray" } none = .ok result ∧
    result.at? [".."] "home" (some "css") = some (.ofParts "home" "css" "Home") := by
  have hfile : (stamps.generate stray { name := "stray" } none).toOption.bind
      (·.at? [".."] "home" (some "css")) = some (.ofParts "home" "css" "Home") := by decide +kernel
  obtain ⟨result, hresult, hfound⟩ := Option.bind_eq_some_iff.1 hfile
  exact ⟨result, toOption_eq_some_iff.1 hresult, hfound⟩

theorem files_below_iff_stray : ∃ result,
    stamps.generate stray { name := "stray" } none = .ok result ∧
    ∃ run : stamps.Run stray { name := "stray" } none result,
      ∃ d ∈ run.delivered, ¬ d.StaysBelow := by
  obtain ⟨result, hresult, -⟩ := generate_stray
  obtain ⟨run, -, hbelow⟩ := files_below_iff hresult
  refine ⟨result, hresult, run, ?_⟩
  by_contra! hall
  have hwritten : ((stamps.deliver stray none stamps.pages strayPage).toOption.map
      (·.files.isEmpty)) = some false := by decide +kernel
  obtain ⟨d, hd, hne⟩ := Option.map_eq_some_iff.1 hwritten
  have hkeeps := (hbelow.1 hall).2.1 strayPage (by simp [stray])
    ⟨d, toOption_eq_some_iff.1 hd, List.isEmpty_eq_false_iff.1 hne⟩
  exact absurd (hkeeps.folders ".." (by simp [strayPage])) (by decide)

/-- The page is written into the folder above, although project and strategy pass their checks. -/
theorem page_written_above : ∃ result,
    stray.validate = .ok () ∧ stamps.validate = .ok () ∧
    stamps.generate stray { name := "stray" } none = .ok result ∧
    result.at? [".."] "home" (some "css") = some (.ofParts "home" "css" "Home") ∧
    ({ name := "stray" } : Folder).at? [".."] "home" (some "css") = none := by
  obtain ⟨result, hresult, hfile⟩ := generate_stray
  obtain ⟨hproject, hstrategy, -⟩ := exists_run hresult
  exact ⟨result, hproject, hstrategy, hresult, hfile, rfl⟩

end Strategy

end Sitewright
