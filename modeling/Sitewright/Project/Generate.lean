import Sitewright.Project.Manifest
import Sitewright.Project.Placement

/-!
# Generating projects

The sections of a project are generated one after another into a copy of a template folder, and the
packages they need are collected into its package manifest. A later section's version of a package
stands.
-/

namespace Sitewright

/-- Files for the folder at a path, and the packages they need. -/
structure Delivery where
  path : List String
  files : List File
  versions : Table String := ∅

/-- A project on its way: the folder and the packages so far. -/
structure Output where
  folder : Folder
  versions : Table String := ∅

namespace Output

def add (o : Output) (d : Delivery) : Output :=
  { folder := o.folder.inject d.path d.files, versions := o.versions.overlay d.versions }

def addAll (o : Output) (deliveries : List Delivery) : Output := deliveries.foldl add o

end Output

/-- What a section delivers, given the output of the sections before. -/
abbrev Stage := Output → Outcome (List Delivery)

/-- Make all deliveries of a section before any of them is added. -/
def runStage (o : Output) (stage : Stage) : Outcome Output := (stage o).map o.addAll

def Compiled.deliveredTo (c : Compiled) (path : List String) : Delivery :=
  { path, files := c.files, versions := c.versions }

namespace Strategy

def deliver (s : Strategy) (p : Project) (mapping : Option Mapping) (part : ComponentSection)
    (c : Component) : Outcome Delivery :=
  let placement := part.placement c
  (part.generator.generate (c.renamed placement.fileName)
    (s.optionsFor p placement.folder mapping false)).map (·.deliveredTo placement.folder)

def routerOptions (s : Strategy) (p : Project) (mapping : Option Mapping) (router : RouterSection) :
    Options :=
  { s.optionsFor p router.path mapping true with
    localPrefix? := some (relativePrefix router.path s.pages.path)
    routes := s.routes p router.path }

def deliverRouter (s : Strategy) (p : Project) (mapping : Option Mapping) (router : RouterSection) :
    Outcome Delivery :=
  (router.generator.generate (p.root.renamed router.fileName) (s.routerOptions p mapping router)).map
    (·.deliveredTo router.path)

/-- The options of the entry file: assets have the prefix of the static files unless they have one
of their own. -/
def entryOptions (s : Strategy) (entry : EntrySection) : EntryOptions :=
  { entry.options with assetsPrefix := entry.options.assetsPrefix.or s.statics.assetsPrefix }

def deliverEntry (s : Strategy) (p : Project) (entry : EntrySection) : Outcome Delivery :=
  (entry.generator.linkFiles (entry.chunks p (s.entryOptions entry)) entry.fileName).map
    fun files => { path := entry.path, files }

def styleSheetOptions (s : Strategy) (p : Project) (mapping : Option Mapping)
    (sheet : StyleSheetSection) : Options :=
  { s.optionsFor p sheet.path mapping true with
    styleSheet := some { styleSets := p.root.styleSets, fileName := sheet.fileName, path := "." } }

def deliverStyleSheet (s : Strategy) (p : Project) (mapping : Option Mapping)
    (sheet : StyleSheetSection) : Outcome Delivery :=
  (sheet.generator.generate (p.root.renamed sheet.fileName)
    (s.styleSheetOptions p mapping sheet)).map (·.deliveredTo sheet.path)

/-- The way from a framework file to the project's style sheet, if the file asks for it. -/
def styleSheetFor (s : Strategy) (file : FrameworkFile) : Option String :=
  if file.needsStyleSheet then
    s.styleSheet.map fun sheet =>
      joinModulePath (relativePrefix file.path sheet.path) (sheet.fileName ++ ".css")
  else none

def deliverFrameworkFile (s : Strategy) (p : Project) (o : Output) (file : FrameworkFile) :
    Outcome Delivery := do
  let content ← file.content
    { project := p, folder := o.folder, versions := o.versions, styleSheet := s.styleSheetFor file }
  let files ← file.generator.linkFiles content.chunks file.fileName
  pure { path := file.path, files, versions := content.versions }

/-- Whether a folder has files with the name of a framework file where that goes. -/
def holdsFile (folder : Folder) (file : FrameworkFile) : Bool :=
  ((folder.find? file.path).map fun f => f.files.any (·.name = file.fileName)).getD false

def deliverReplacement (s : Strategy) (p : Project) (o : Output) (file : FrameworkFile) :
    Outcome Delivery :=
  if holdsFile o.folder file then s.deliverFrameworkFile p o file
  else .error (.invalidStrategy
    s!"framework file '{file.fileName}' to replace is not part of the template")

def deliverWebManifest? (s : Strategy) (p : Project) : Option Delivery :=
  (webManifestFile? p (s.statics.assetsPrefix.getD "")).map fun file =>
    { path := s.statics.path, files := [file] }

def stages (s : Strategy) (p : Project) (mapping : Option Mapping) : List Stage :=
  [fun _ => p.components.values.mapM (s.deliver p mapping s.components),
    fun _ => (p.pages.map (·.component)).mapM (s.deliver p mapping s.pages),
    fun _ => s.router.toList.mapM (s.deliverRouter p mapping),
    fun _ => s.entry.toList.mapM (s.deliverEntry p),
    fun _ => s.styleSheet.toList.mapM (s.deliverStyleSheet p mapping),
    fun o => s.framework.config.toList.mapM (s.deliverFrameworkFile p o),
    fun o => s.framework.replacement.toList.mapM (s.deliverReplacement p o),
    fun _ => .ok (s.deliverWebManifest? p).toList]

def generate (s : Strategy) (p : Project) (template : Folder) (mapping : Option Mapping) :
    Outcome Folder := do
  p.validate
  s.validate
  let o ← (s.stages p mapping).foldlM runStage { folder := template }
  completePackageManifest o.folder p o.versions ∅

end Strategy

end Sitewright
