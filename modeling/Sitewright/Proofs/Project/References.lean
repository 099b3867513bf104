import Mathlib.Data.List.Forall2
import Sitewright.Project.Generate
import Sitewright.Proofs.Path.Following
import Sitewright.Proofs.Table

/-!
# References between the files of a project

Generated files refer to shared components, to pages and to the project's style sheet. If the
folders and file names of the strategy and of the project are plain, each such reference leads from
the folder of the file that holds it to the place of the file that it names.
-/

namespace Sitewright

open Sitewright.Path (follow)

structure Component.IsPlain (c : Component) : Prop where
  folder : ∀ s ∈ c.output.folderPath, Path.IsPlain s
  fileName : Path.IsPlain c.fileName

structure ComponentSection.IsPlain (s : ComponentSection) : Prop where
  path : ∀ t ∈ s.path, Path.IsPlain t
  fileName : ∀ t ∈ s.fileName, Path.IsPlain t

structure Strategy.IsPlain (s : Strategy) : Prop where
  components : s.components.IsPlain
  pages : s.pages.IsPlain
  routerPath : ∀ router ∈ s.router, ∀ t ∈ router.path, Path.IsPlain t
  sheetPath : ∀ sheet ∈ s.styleSheet, ∀ t ∈ sheet.path, Path.IsPlain t
  sheetFileName : ∀ sheet ∈ s.styleSheet, Path.IsPlain sheet.fileName

structure Project.IsPlain (p : Project) : Prop where
  components : ∀ c ∈ p.components.values, c.IsPlain
  pages : ∀ page ∈ p.pages, page.component.IsPlain

/-- The folder of a placed file and its name, as one way from the root. -/
def Placement.steps (p : Placement) : List String := p.folder ++ [p.fileName]

variable {s : Strategy} {p : Project} {part : ComponentSection} {c : Component}
  {location : List String}

def ComponentSection.foldersBelow (part : ComponentSection) (c : Component) : List String :=
  c.output.folderPath ++ if part.ownFolders then [c.fileName] else []

theorem ComponentSection.placement_folder :
    (part.placement c).folder = part.path ++ part.foldersBelow c := by
  unfold placement foldersBelow
  split <;> simp

theorem ComponentSection.isPlain_fileName (hpart : part.IsPlain) (hc : c.IsPlain) :
    Path.IsPlain (part.placement c).fileName := by
  unfold placement
  split
  · cases hf : part.fileName with
    | none => exact (by decide : Path.IsPlain "index")
    | some fileName => exact hpart.fileName fileName hf
  · exact hc.fileName

theorem ComponentSection.isPlain_foldersBelow (hc : c.IsPlain) :
    ∀ t ∈ part.foldersBelow c, Path.IsPlain t := by
  intro t ht
  rcases List.mem_append.1 ht with ht | ht
  · exact hc.folder t ht
  · split at ht
    · rw [List.mem_singleton.1 ht]
      exact hc.fileName
    · cases ht

theorem ComponentSection.isPlain_folder (hpart : part.IsPlain) (hc : c.IsPlain) :
    ∀ t ∈ (part.placement c).folder, Path.IsPlain t := by
  intro t ht
  rw [placement_folder] at ht
  rcases List.mem_append.1 ht with ht | ht
  · exact hpart.path t ht
  · exact isPlain_foldersBelow hc t ht

theorem Strategy.modulePath_placed :
    (s.placed c).modulePath =
      "/".intercalate (s.components.foldersBelow c ++ [(s.components.placement c).fileName]) := by
  have hfolder : (s.placed c).output.folderPath = s.components.foldersBelow c := by
    simp [placed, ComponentSection.placement_folder]
  rw [Component.modulePath, hfolder]
  rfl

theorem Strategy.follow_placed (hs : s.IsPlain) (hc : c.IsPlain)
    (hlocation : ∀ t ∈ location, Path.IsPlain t) :
    follow location
        (joinModulePath (relativePrefix location s.components.path) (s.placed c).modulePath) =
      some (s.components.placement c).steps := by
  have hsegments : ∀ t ∈ s.components.foldersBelow c ++ [(s.components.placement c).fileName],
      Path.IsPlain t := by
    intro t ht
    rcases List.mem_append.1 ht with ht | ht
    · exact ComponentSection.isPlain_foldersBelow hc t ht
    · rw [List.mem_singleton.1 ht]
      exact ComponentSection.isPlain_fileName hs.components hc
  rw [modulePath_placed, follow_joinModulePath hlocation hs.components.path (by simp) hsegments,
    Placement.steps, ComponentSection.placement_folder, List.append_assoc]

theorem Placement.follow_modulePathFrom {placement : Placement}
    (hfolder : ∀ t ∈ placement.folder, Path.IsPlain t) (hfile : Path.IsPlain placement.fileName)
    (hlocation : ∀ t ∈ location, Path.IsPlain t) :
    follow location (placement.modulePathFrom location) = some placement.steps := by
  have hsteps : ∀ t ∈ [placement.fileName], Path.IsPlain t := by simpa using hfile
  have hway := follow_joinModulePath hlocation hfolder (by simp) hsteps
  simpa [modulePathFrom, steps] using hway

theorem Strategy.follow_routes (hs : s.IsPlain) (hp : p.IsPlain)
    (hlocation : ∀ t ∈ location, Path.IsPlain t) :
    List.Forall₂ (fun route page => route.navLink = page.navLink ∧
        follow location route.modulePath = some (s.pages.placement page.component).steps)
      (s.routes p location) p.pages := by
  rw [routes, List.forall₂_map_left_iff, List.forall₂_same]
  intro page hpage
  have hc := hp.pages page hpage
  exact ⟨rfl, Placement.follow_modulePathFrom (ComponentSection.isPlain_folder hs.pages hc)
    (ComponentSection.isPlain_fileName hs.pages hc) hlocation⟩

def StyleSheetSection.steps (sheet : StyleSheetSection) : List String :=
  sheet.path ++ [sheet.fileName ++ ".css"]

theorem Strategy.follow_styleSheet {sheet : StyleSheetSection} (hs : s.IsPlain)
    (hsheet : s.styleSheet = some sheet) (hlocation : ∀ t ∈ location, Path.IsPlain t) :
    follow location (joinModulePath (relativePrefix location sheet.path)
      (sheet.fileName ++ ".css")) = some sheet.steps := by
  have hfile : Path.IsPlain (sheet.fileName ++ ".css") :=
    Path.isPlain_append (hs.sheetFileName sheet hsheet) (by decide) (by decide)
  have hsteps : ∀ t ∈ [sheet.fileName ++ ".css"], Path.IsPlain t := by simpa using hfile
  have hway := follow_joinModulePath hlocation (hs.sheetPath sheet hsheet) (by simp) hsteps
  simpa [StyleSheetSection.steps] using hway

variable {mapping : Option Mapping} {isRoot : Bool}

theorem Strategy.globalStyleSheet?_optionsFor :
    (s.optionsFor p location mapping isRoot).globalStyleSheet? =
      s.styleSheet.bind fun sheet =>
        if sheet.importFile || isRoot then
          let path := joinModulePath (relativePrefix location sheet.path) (sheet.fileName ++ ".css")
          some (path, (Dependency.localPath path).sideEffect)
        else none := by
  cases hsheet : s.styleSheet with
  | none => simp [Options.globalStyleSheet?, optionsFor, styleSheetFrom, hsheet]
  | some sheet => simp [Options.globalStyleSheet?, optionsFor, styleSheetFrom, hsheet]

theorem Strategy.localPrefix_optionsFor :
    (s.optionsFor p location mapping isRoot).localPrefix =
      relativePrefix location s.components.path := by
  rw [Options.localPrefix, optionsFor, Option.getD_some]

theorem Strategy.get?_externals {key : String} (hc : p.components.get? key = some c) :
    (s.optionsFor p location mapping isRoot).externals.get? key = some (s.placed c) := by
  rw [optionsFor, Table.get?_map, hc, Option.map_some]

theorem Strategy.follow_globalStyleSheet (hs : s.IsPlain)
    (hlocation : ∀ t ∈ location, Path.IsPlain t) {identifier : String} {d : Dependency}
    (hd : (s.optionsFor p location mapping isRoot).globalStyleSheet? = some (identifier, d)) :
    ∃ sheet ∈ s.styleSheet, follow location d.source = some sheet.steps := by
  rw [globalStyleSheet?_optionsFor] at hd
  obtain ⟨sheet, hsheet, hd⟩ := Option.bind_eq_some_iff.1 hd
  split at hd
  · obtain ⟨rfl, rfl⟩ := Prod.mk.inj (Option.some.inj hd)
    exact ⟨sheet, hsheet, follow_styleSheet hs hsheet hlocation⟩
  · cases hd

theorem Strategy.isSome_globalStyleSheet :
    (s.optionsFor p location mapping isRoot).globalStyleSheet?.isSome ↔
      ∃ sheet ∈ s.styleSheet, sheet.importFile ∨ isRoot := by
  rw [globalStyleSheet?_optionsFor]
  cases s.styleSheet with
  | none => simp
  | some sheet => simp

/-- The import that an element of another component's kind makes leads to that component. -/
theorem React.follow_dependency? (hs : s.IsPlain) (hp : p.IsPlain)
    (hlocation : ∀ t ∈ location, Path.IsPlain t) {e : Ui.Element} (he : e.dependency = none)
    (hc : p.components.get? e.kind = some c) :
    ∃ d, dependency? (s.optionsFor p location mapping isRoot) e = some d ∧
      follow location d.source = some (s.components.placement c).steps := by
  have hplain := hp.components c (Table.mem_values_of_get? hc)
  have hway : follow location (joinModulePath (s.optionsFor p location mapping isRoot).localPrefix
      (s.placed c).modulePath) = some (s.components.placement c).steps := by
    rw [Strategy.localPrefix_optionsFor]
    exact Strategy.follow_placed hs hplain hlocation
  generalize hoptions : s.optionsFor p location mapping isRoot = options at hway ⊢
  have hplaced : options.externals.get? e.kind = some (s.placed c) :=
    hoptions ▸ Strategy.get?_externals hc
  exact ⟨Dependency.localPath (joinModulePath options.localPrefix (s.placed c).modulePath),
    by simp only [dependency?, he, hplaced, Option.map_some], hway⟩

/-- Every local reference that a strategy hands out leads from the file that holds it to the place
of the file that it names, and so does the import of an element of a component's kind. -/
theorem Strategy.references_lead_to_placements (hs : s.IsPlain) (hp : p.IsPlain)
    (mapping : Option Mapping) (isRoot : Bool) (hlocation : ∀ t ∈ location, Path.IsPlain t) :
    (∀ key c, p.components.get? key = some c → ∃ placed,
      (s.optionsFor p location mapping isRoot).externals.get? key = some placed ∧
      follow location
          (joinModulePath (relativePrefix location s.components.path) placed.modulePath) =
        some (s.components.placement c).steps) ∧
    (∀ e : Ui.Element, e.dependency = none → ∀ c, p.components.get? e.kind = some c → ∃ d,
      React.dependency? (s.optionsFor p location mapping isRoot) e = some d ∧
      follow location d.source = some (s.components.placement c).steps) ∧
    (∀ router ∈ s.router, List.Forall₂ (fun route page => route.navLink = page.navLink ∧
        follow router.path route.modulePath = some (s.pages.placement page.component).steps)
      (s.routes p router.path) p.pages) ∧
    ((s.optionsFor p location mapping isRoot).globalStyleSheet?.isSome ↔
      ∃ sheet ∈ s.styleSheet, sheet.importFile ∨ isRoot) ∧
    ∀ identifier d,
      (s.optionsFor p location mapping isRoot).globalStyleSheet? = some (identifier, d) →
      ∃ sheet ∈ s.styleSheet, follow location d.source = some sheet.steps := by
  refine ⟨?_, ?_, ?_, isSome_globalStyleSheet, ?_⟩
  · intro key c hc
    have hplain := hp.components c (Table.mem_values_of_get? hc)
    exact ⟨s.placed c, get?_externals hc, follow_placed hs hplain hlocation⟩
  · intro e he c hc
    exact React.follow_dependency? hs hp hlocation he hc
  · intro router hrouter
    exact follow_routes hs hp (hs.routerPath router hrouter)
  · intro identifier d hd
    exact follow_globalStyleSheet hs hlocation hd

theorem Strategy.isPlain_react : react.IsPlain where
  components := ⟨by decide, by rintro t ⟨⟩⟩
  pages := ⟨by decide, by rintro t ⟨⟩⟩
  routerPath := by rintro router ⟨⟩; decide
  sheetPath := by rintro sheet ⟨⟩; decide
  sheetFileName := by rintro sheet ⟨⟩; decide

def Project.shop : Project where
  name := "shop"
  root := { name := "App", node := .text "" }
  pages := [{ navLink := "/", component :=
    { name := "Home", node := .text "", output := { fileName := some "home" } } }]
  components := .ofList [("Card", { name := "Card", node := .text "", output :=
    { fileName := some "card", folderPath := ["cards"] } })]

theorem Project.isPlain_shop : shop.IsPlain where
  components := by
    intro c hc
    obtain rfl := List.mem_singleton.1 hc
    exact ⟨by decide, by decide⟩
  pages := by
    intro page hpage
    obtain rfl := List.mem_singleton.1 hpage
    exact ⟨by decide, by decide⟩

theorem Strategy.references_lead_to_placements_shop :
    react.IsPlain ∧ Project.shop.IsPlain ∧ (∀ t ∈ ["src", "views"], Path.IsPlain t) ∧
    (∃ placed, (react.optionsFor .shop ["src", "views"] none false).externals.get? "Card" =
        some placed ∧
      follow ["src", "views"] (joinModulePath (relativePrefix ["src", "views"]
        react.components.path) placed.modulePath) = some ["src", "components", "cards", "card"]) ∧
    (∃ d, React.dependency? (react.optionsFor .shop ["src", "views"] none false)
        { kind := "Card" } = some d ∧
      follow ["src", "views"] d.source = some ["src", "components", "cards", "card"]) ∧
    ¬ (react.optionsFor .shop ["src", "views"] none false).globalStyleSheet?.isSome := by
  have hlocation : ∀ t ∈ ["src", "views"], Path.IsPlain t := by decide
  obtain ⟨hcomponents, himports, -, hsheet, -⟩ := references_lead_to_placements isPlain_react
    Project.isPlain_shop none false hlocation
  refine ⟨isPlain_react, Project.isPlain_shop, hlocation, hcomponents "Card" _ rfl,
    himports { kind := "Card" } rfl _ rfl, ?_⟩
  rw [hsheet]
  rintro ⟨sheet, ⟨⟩, h⟩
  simp at h

end Sitewright
