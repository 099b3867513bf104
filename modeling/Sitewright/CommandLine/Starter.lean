import Sitewright.CommandLine.Machine
import Sitewright.Folder
import Sitewright.Json.Printer
import Sitewright.Path
import Sitewright.Text.Bytes

/-!
# Starting a project

The `init` command writes a configuration and a small sample project. A generated project starts
from the files of a template folder.
-/

namespace Sitewright.CommandLine

namespace Starter

/-- The name of the project in a folder; the current folder has no name. -/
def projectName (folder : String) : String := if folder = "." then "my-app" else folder

def configuration (folder preset : String) : String :=
  "# uidlgen configuration\n" ++
  "\n[project]\nname = \"" ++ projectName folder ++ "\"\n" ++
  "\n[output]\ndir = \"dist\"\nformat = \"json\"\n" ++
  "\n[strategy]\npreset = \"" ++ preset ++ "\"\n"

def project (folder : String) : Json :=
  let name := Json.string (projectName folder)
  let text (s : String) : Json := .object [("type", .string "static"), ("content", .string s)]
  let element (fields : List (String × Json)) : Json :=
    .object [("type", .string "element"), ("content", .object fields)]
  let page (link componentName : String) (node : Json) : Json :=
    .object [("navLink", .string link),
      ("component", .object [("name", .string componentName), ("node", node)])]
  let link := element
    [("elementType", .string "navlink"), ("attrs", .object [("transitionTo", text "/about")]),
      ("children", .array [text "About"])]
  let home := element
    [("elementType", .string "container"), ("style", .object [("padding", .string "16px")]),
      ("children", .array [link])]
  let about := element
    [("elementType", .string "text"), ("children", .array [text "Generated with uidlgen"])]
  .object
    [("name", name),
      ("globals", .object
        [("settings", .object [("title", name), ("language", .string "en")]),
          ("meta", .array
            [.object [("name", .string "viewport"),
              ("content", .string "width=device-width, initial-scale=1")]])]),
      ("root", .object
        [("name", .string "App"), ("node", text ""),
          ("styleSetDefinitions", .object
            [("primary-button",
              .object [("background", .string "$primary"), ("color", .string "white")])]),
          ("designLanguage", .object [("tokens", .object [("primary", .string "#6b46c1")])])]),
      ("pages", .array [page "/" "Home" home, page "/about" "About" about])]

def projectText (folder : String) : String := (project folder).canonical.pretty

end Starter

variable {m : Type → Type} [Monad m] [Machine m]

def writeStarterFile (folder name content : String) : Run m Unit := do
  ensure (.notWritten name) (Machine.write (m := m) (Path.join folder name) content)
  Machine.note (m := m) s!"  ✓ Created {name}\n"

def start (folder preset : String) : Run m Unit := do
  if preset ≠ "react" ∧ preset ≠ "html" then throw (.unknownPreset preset)
  Machine.note (m := m) s!"→ Initializing new {preset} project...\n\n"
  if folder ≠ "." then
    ensure .projectFolderNotMade (Machine.makeFolders (m := m) folder)
  writeStarterFile folder "uidlgen.toml" (Starter.configuration folder preset)
  writeStarterFile folder "project.json" (Starter.projectText folder)
  Machine.note (m := m) "\n✓ Project initialized successfully!\n\n  Next steps:\n"
  if folder ≠ "." then Machine.note (m := m) s!"    → cd {folder}\n"
  Machine.note (m := m) "    → uidlgen project project.json\n\n"

/-! ## Templates -/

/-- A file with some bytes: as text if they are UTF-8, and else in base64. -/
def fileOfBytes (fullName : String) (bytes : ByteArray) : File :=
  match String.fromUTF8? bytes with
  | some text => File.ofFullName fullName text
  | none => { File.ofFullName fullName (Base64.encode bytes.toList) with encoding := .base64 }

/-- Put the file that some steps lead to from a path into a folder. A path may be that of a file,
which no steps lead to. -/
def addTemplateFile (path : String) (folder : Folder) (steps : List String) : Run m Folder := do
  let filePath := steps.foldl Path.join path
  match ← Machine.read? (m := m) filePath with
  | some bytes =>
    let name := steps.getLast?.getD (Path.lastStep path)
    pure (folder.inject steps.dropLast [fileOfBytes name bytes])
  | none => throw (.templateFileNotRead filePath)

def readTemplate (path name : String) : Run m Folder := do
  match ← Machine.filesBelow? (m := m) path with
  | some found => found.foldlM (addTemplateFile path) { name }
  | none => throw (.templateNotWalked path)

end Sitewright.CommandLine
