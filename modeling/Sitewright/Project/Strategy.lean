import Sitewright.Generator.Builtin
import Sitewright.Project.Entry

/-!
# Project strategies

A strategy is the plan for one target: the generator of each section of a project, and where its
files go.
-/

namespace Sitewright

/-- A section whose components may each have a folder of their own. -/
structure ComponentSection where
  generator : Generator
  path : List String
  /-- Whether each component has a folder named after it. -/
  ownFolders : Bool := false
  /-- The file name in a component's own folder, `index` if it is not given. -/
  fileName : Option String := none
  deriving Inhabited

structure RouterSection where
  generator : Generator
  path : List String
  fileName : String
  deriving Inhabited

structure EntrySection where
  generator : Generator
  path : List String
  fileName : String
  /-- Makes the chunks of the entry file. -/
  chunks : Project → EntryOptions → ChunkStore
  options : EntryOptions

structure StyleSheetSection where
  generator : Generator
  path : List String
  fileName : String
  /-- Whether every component imports the style sheet, and not only the root. -/
  importFile : Bool := false
  deriving Inhabited

structure StaticSection where
  /-- What is put before root-relative asset paths. -/
  assetsPrefix : Option String := none
  path : List String := []
  deriving Repr, DecidableEq, Inhabited

structure FrameworkContext where
  project : Project
  /-- The output so far. -/
  folder : Folder
  /-- The packages so far. -/
  versions : Table String
  /-- The way to the project's style sheet, if the file asks for it and there is one. -/
  styleSheet : Option String

structure FrameworkContent where
  chunks : ChunkStore
  versions : Table String

structure FrameworkFile where
  generator : Generator
  path : List String
  fileName : String
  content : FrameworkContext → Outcome FrameworkContent
  /-- Whether the content asks for the way to the project's style sheet. -/
  needsStyleSheet : Bool := false

structure FrameworkSection where
  /-- A file made from scratch. -/
  config : Option FrameworkFile := none
  /-- A file of the template that is written anew. -/
  replacement : Option FrameworkFile := none

structure Strategy where
  id : String
  components : ComponentSection
  pages : ComponentSection
  router : Option RouterSection := none
  entry : Option EntrySection := none
  styleSheet : Option StyleSheetSection := none
  statics : StaticSection := {}
  framework : FrameworkSection := {}

namespace Strategy

/-- Whether a path segment would not name a folder below. -/
def isBadSegment (s : String) : Bool := s.isEmpty || s = "." || s = ".." || s.toList.contains '/'

/-- File names are not blank and hold no slash. -/
def checkFileName (area fileName : String) : Outcome Unit :=
  if isBlankText fileName || fileName.toList.contains '/' then
    .error (.invalidStrategy s!"{area} file name '{fileName}' is invalid")
  else .ok ()

def checkPath (area : String) (path : List String) : Outcome Unit :=
  match path.find? isBadSegment with
  | some segment => .error (.invalidStrategy s!"{area} path has an invalid segment '{segment}'")
  | none => .ok ()

def namedFiles (s : Strategy) : List (String × List String × String) :=
  (s.router.map fun r => ("router", r.path, r.fileName)).toList ++
    (s.entry.map fun e => ("entry", e.path, e.fileName)).toList ++
    (s.styleSheet.map fun t => ("project stylesheet", t.path, t.fileName)).toList ++
    (s.framework.config.map fun f => ("framework config", f.path, f.fileName)).toList ++
    (s.framework.replacement.map fun f => ("framework replace", f.path, f.fileName)).toList

def paths (s : Strategy) : List (String × List String) :=
  [("components", s.components.path), ("pages", s.pages.path), ("static", s.statics.path)] ++
    s.namedFiles.map fun e => (e.1, e.2.1)

/-- Refuse names and paths that would put files outside the project: names first, then paths. -/
def validate (s : Strategy) : Outcome Unit := do
  s.namedFiles.forM fun e => checkFileName e.1 e.2.2
  s.paths.forM fun e => checkPath e.1 e.2

def react : Strategy where
  id := "react"
  components := { generator := .reactComponent, path := ["src", "components"] }
  pages := { generator := .reactComponent, path := ["src", "views"] }
  router := some { generator := .reactRouter, path := ["src"], fileName := "index" }
  entry := some
    { generator := .entryFile, path := ["public"], fileName := "index", chunks := Entry.chunks
      options := {} }
  styleSheet := some { generator := .projectStyleSheet, path := ["src"], fileName := "style" }
  statics := { path := ["public"] }

def html : Strategy where
  id := "html"
  components := { generator := .htmlComponent, path := [] }
  pages := { generator := .htmlComponent, path := [] }
  styleSheet := some
    { generator := .projectStyleSheet, path := [], fileName := "style", importFile := true }

end Strategy

end Sitewright
