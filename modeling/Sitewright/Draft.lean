import Sitewright.Chunk.Store
import Sitewright.Component
import Sitewright.Fault
import Sitewright.Mapping.Basic
import Sitewright.Path

/-!
# Options and drafts

The options of a generation are what it knows about the project around a component. A draft is a
component on its way to files. Plugins work on it one after another; the first fault ends the work.
-/

namespace Sitewright

structure ProjectStyleSheet where
  styleSets : StyleSets := ∅
  /-- The file name without extension. -/
  fileName : String := ""
  /-- The way from the component's folder to the folder of the style sheet. -/
  path : String := ""
  /-- Whether every component imports the style sheet. -/
  importFile : Bool := false
  deriving DecidableEq, Inhabited

structure Route where
  navLink : String
  componentName : String
  /-- The way from the router's folder to the module of the page. -/
  modulePath : String
  deriving Repr, DecidableEq, Inhabited

structure Options where
  /-- The way from the component's folder to the folder of the shared components. -/
  localPrefix? : Option String := none
  /-- What is put before root-relative asset paths. -/
  assetsPrefix? : Option String := none
  /-- A mapping to lay over that of the generator. -/
  mapping : Option Mapping := none
  /-- Whether the component is the application root, which imports the project's style sheet. -/
  isRoot : Bool := false
  designLanguage : Option DesignLanguage := none
  styleSheet : Option ProjectStyleSheet := none
  routes : List Route := []
  /-- The shared components, by the kind of element that refers to them. -/
  externals : Table Component := ∅
  deriving Inhabited

namespace Options

def localPrefix (o : Options) : String := o.localPrefix?.getD "."

def assetsPrefix (o : Options) : String := o.assetsPrefix?.getD ""

/-- The local prefix has to be relative. -/
def checkPrefix (o : Options) : Outcome Unit :=
  match o.localPrefix? with
  | some path =>
    if beginsWith "." path then .ok ()
    else .error (.invalidStrategy s!"local dependencies prefix '{path}' is not relative")
  | none => .ok ()

/-- The style sheet has to have a file name. -/
def checkStyleSheet (o : Options) : Outcome Unit :=
  match o.styleSheet with
  | some sheet =>
    if sheet.fileName.isEmpty then
      .error (.invalidStrategy "project stylesheet has no file name")
    else .ok ()
  | none => .ok ()

def checkRoute (r : Route) : Outcome Unit :=
  if r.navLink.isEmpty || r.componentName.isEmpty then
    .error (.invalidStrategy s!"route to '{r.modulePath}' is incomplete")
  else .ok ()

def validate (o : Options) : Outcome Unit := do
  o.checkPrefix
  o.checkStyleSheet
  o.routes.forM checkRoute

def globalStyleSheet? (o : Options) : Option (String × Dependency) :=
  o.styleSheet.bind fun sheet =>
    if sheet.importFile || o.isRoot then
      let path := joinModulePath sheet.path (sheet.fileName ++ ".css")
      some (path, (Dependency.localPath path).sideEffect)
    else none

end Options

structure Draft where
  component : Component
  chunks : ChunkStore := {}
  imports : Imports := .empty
  options : Options
  deriving Inhabited

namespace Draft

def allImports (d : Draft) : Outcome Imports := d.imports.mergeAll d.chunks.dependencies

def mapping (d : Draft) : Mapping := d.options.mapping.getD {}

def importAll (d : Draft) (records : List (String × Dependency)) : Outcome Draft :=
  (d.imports.mergeAll records).map fun imports => { d with imports }

def addChunks (d : Draft) (chunks : List Chunk) : Draft :=
  { d with chunks := d.chunks.addAll chunks }

end Draft

structure Plugin where
  name : String
  run : Draft → Outcome Draft

def runPlugins (plugins : List Plugin) (d : Draft) : Outcome Draft :=
  plugins.foldlM (fun d plugin => plugin.run d) d

end Sitewright
