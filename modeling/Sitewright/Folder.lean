import Sitewright.Json.Decode

/-!
# Output folders

The generated project in memory: folders of files. Folders are found by name and files by name and
extension, the first one in order; files are put into the folder at a path, which is made if it is
not there.
-/

namespace Sitewright

inductive Encoding
  | utf8
  | base64
  deriving Repr, DecidableEq, Inhabited

/-- Whether the content is the file's own, or an address to fetch it from. -/
inductive Location
  | inline
  | remote
  deriving Repr, DecidableEq, Inhabited

structure File where
  /-- The name without extension. -/
  name : String
  content : String
  encoding : Encoding := .utf8
  extension : Option String := none
  location : Location := .inline
  deriving Repr, DecidableEq, Inhabited

namespace File

def ofParts (name extension content : String) : File :=
  { name, content, extension := some extension }

def fullName (f : File) : String :=
  match f.extension with
  | some extension => f.name ++ "." ++ extension
  | none => f.name

/-- A text file whose extension is what follows the last dot of its full name. A name that begins
with its only dot has no extension. -/
def ofFullName (fullName content : String) : File :=
  let reversed := fullName.toList.reverse
  let extension := (reversed.takeWhile (· ≠ '.')).reverse
  match reversed.dropWhile (· ≠ '.') with
  | _ :: c :: name =>
    ofParts (String.ofList (c :: name).reverse) (String.ofList extension) content
  | _ => { name := fullName, content }

def sameKey (f g : File) : Bool := f.name = g.name && f.extension = g.extension

end File

structure Folder where
  name : String
  files : List File := []
  folders : List Folder := []
  deriving Inhabited

/-- Put a file in the place of the file with its name and extension, or else at the end. -/
def placeFile (file : File) : List File → List File
  | [] => [file]
  | f :: rest => if f.sameKey file then file :: rest else f :: placeFile file rest

def changeFile? (p : File → Bool) (change : File → File) : List File → Option (List File)
  | [] => none
  | f :: rest => if p f then some (change f :: rest) else (changeFile? p change rest).map (f :: ·)

/-- Change the folder with a name, or a new one at the end if there is none. -/
def changeNamed (name : String) (change : Folder → Folder) : List Folder → List Folder
  | [] => [change { name }]
  | f :: rest => if f.name = name then change f :: rest else f :: changeNamed name change rest

def changeExisting? (name : String) (change? : Folder → Option Folder) :
    List Folder → Option (List Folder)
  | [] => none
  | f :: rest =>
    if f.name = name then (change? f).map (· :: rest)
    else (changeExisting? name change? rest).map (f :: ·)

namespace Folder

def place (f : Folder) (files : List File) : Folder :=
  { f with files := files.foldl (fun placed file => placeFile file placed) f.files }

/-- Change the folder at a path, which is made if it is not there. -/
def changeAt (change : Folder → Folder) : List String → Folder → Folder
  | [], f => change f
  | name :: path, f => { f with folders := changeNamed name (changeAt change path) f.folders }

def inject (f : Folder) (path : List String) (files : List File) : Folder :=
  changeAt (·.place files) path f

def find? : List String → Folder → Option Folder
  | [], f => some f
  | name :: path, f => (f.folders.find? (·.name = name)).bind (find? path)

def modify? (change? : Folder → Option Folder) : List String → Folder → Option Folder
  | [], f => change? f
  | name :: path, f =>
    (changeExisting? name (modify? change? path) f.folders).map fun folders => { f with folders }

def file? (f : Folder) (path : List String) (fullName : String) : Option File :=
  (f.find? path).bind fun folder => folder.files.find? (·.fullName = fullName)

def setContent? (fullName content : String) (f : Folder) : Option Folder :=
  (changeFile? (·.fullName = fullName) (fun file => { file with content }) f.files).map fun files =>
    { f with files }

mutual
/-- All files with their paths, the files of a folder before those of its sub-folders. -/
def filesBelow (start : String) : Folder → List (String × File)
  | ⟨_, files, folders⟩ =>
    files.map (fun f => (start ++ f.fullName, f)) ++ filesBelowAll start folders

def filesBelowAll (start : String) : List Folder → List (String × File)
  | [] => []
  | f :: rest => f.filesBelow (start ++ f.name ++ "/") ++ filesBelowAll start rest
end

def allFiles (f : Folder) : List (String × File) := f.filesBelow ""

end Folder

open Json

def Encoding.name : Encoding → String
  | utf8 => "utf8"
  | base64 => "base64"

def Encoding.ofJson? (j : Json) : Option Encoding := do
  match ← j.word? with
  | "utf8" => pure .utf8
  | "base64" => pure .base64
  | _ => none

def Location.name : Location → String
  | inline => "local"
  | remote => "remote"

def Location.ofJson? (j : Json) : Option Location := do
  match ← j.word? with
  | "local" => pure .inline
  | "remote" => pure .remote
  | _ => none

def File.toJson (f : File) : Json :=
  .object ([("name", .string f.name), ("content", .string f.content),
      ("contentEncoding", .string f.encoding.name)] ++
    fieldIfSome "fileType" .string f.extension ++ [("location", .string f.location.name)])

def File.ofJson? (j : Json) : Option File := do
  match ← j.record? [["name"], ["content"], ["contentEncoding"], ["fileType"], ["location"]] with
  | [name, content, encoding, extension, location] =>
    pure { name := ← required string? name
           content := ← required string? content
           encoding := ← defaulted Encoding.ofJson? .utf8 encoding
           extension := ← nullable string? extension
           location := ← defaulted Location.ofJson? .inline location }
  | _ => none

namespace Folder

mutual
def toJson : Folder → Json
  | ⟨name, files, folders⟩ => .object [("name", .string name), ("files", ofItems File.toJson files),
      ("subFolders", .array (allToJson folders))]

def allToJson : List Folder → List Json
  | [] => []
  | f :: rest => f.toJson :: allToJson rest
end

def within? : Nat → Json → Option Folder
  | 0, _ => none
  | depth + 1, j => do
    match ← j.record? [["name"], ["files"], ["subFolders"]] with
    | [name, files, folders] =>
      pure { name := ← required string? name
             files := ← defaulted (list? File.ofJson?) [] files
             folders := ← defaulted (list? (within? depth)) [] folders }
    | _ => none

def ofJson? (j : Json) : Option Folder := within? j.depth j

end Folder

end Sitewright
