import Sitewright.Project.Strategy

/-!
# Placements

Where the files of components and pages go, and what each of them knows about the places of the
others.
-/

namespace Sitewright

structure Placement where
  folder : List String
  fileName : String
  deriving Repr, DecidableEq, Inhabited

def Placement.modulePathFrom (p : Placement) (start : List String) : String :=
  joinModulePath (relativePrefix start p.folder) p.fileName

def ComponentSection.placement (s : ComponentSection) (c : Component) : Placement :=
  let folder := s.path ++ c.output.folderPath
  if s.ownFolders then ⟨folder ++ [c.fileName], s.fileName.getD "index"⟩
  else ⟨folder, c.fileName⟩

namespace Strategy

/-- A shared component under the name of its file, its folders counted from the folder of the shared
components. -/
def placed (s : Strategy) (c : Component) : Component :=
  let placement := s.components.placement c
  let renamed := c.renamed placement.fileName
  { renamed with output :=
    { renamed.output with folderPath := placement.folder.drop s.components.path.length } }

def styleSheetFrom (s : Strategy) (p : Project) (location : List String) :
    Option ProjectStyleSheet :=
  s.styleSheet.map fun sheet =>
    { styleSets := p.root.styleSets
      fileName := sheet.fileName
      path := relativePrefix location sheet.path
      importFile := sheet.importFile }

def optionsFor (s : Strategy) (p : Project) (location : List String) (mapping : Option Mapping)
    (isRoot : Bool) : Options :=
  { localPrefix? := some (relativePrefix location s.components.path)
    assetsPrefix? := s.statics.assetsPrefix
    mapping
    isRoot
    designLanguage := p.root.designLanguage
    styleSheet := s.styleSheetFrom p location
    externals := p.components.map s.placed }

def routes (s : Strategy) (p : Project) (location : List String) : List Route :=
  p.pages.map fun page =>
    { navLink := page.navLink
      componentName := page.component.className
      modulePath := (s.pages.placement page.component).modulePathFrom location }

end Strategy

end Sitewright
