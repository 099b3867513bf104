import Sitewright.CommandLine.Machine
import Sitewright.Path
import Sitewright.Text.Basic

/-!
# A machine in memory

Its files are a list of places with contents. Relative paths start at the working folder.
-/

namespace Sitewright.CommandLine

/-- A place is given by the names that lead to it from the root. -/
abbrev Place := List String

structure Disk where
  /-- All folders but the root. -/
  folders : List Place := []
  files : List (Place × ByteArray) := []
  workingFolder : Place := []
  deriving Inhabited

namespace Disk

def isFolder (d : Disk) (place : Place) : Bool := place.isEmpty || d.folders.contains place

def isFile (d : Disk) (place : Place) : Bool := (d.files.lookup place).isSome

/-- Names of files are not empty and at most 255 bytes long. -/
def isName (s : String) : Bool := s ≠ "" && s.utf8ByteSize ≤ 255 && !s.toList.contains '\x00'

def start (d : Disk) (path : String) : Place := if Path.isAbsolute path then [] else d.workingFolder

def stepFrom (place : Place) (step : String) : Place :=
  if step = "" ∨ step = "." then place
  else if step = ".." then place.dropLast
  else place ++ [step]

/-- The place that some steps lead to. All but the last place have to be folders. -/
def follow (d : Disk) (place : Place) : List String → Option Place
  | [] => some place
  | step :: rest => if d.isFolder place then d.follow (stepFrom place step) rest else none

/-- The place of a path, which need not be taken. -/
def place? (d : Disk) (path : String) : Option Place :=
  if path = "" then none else d.follow (d.start path) (splitText '/' path)

def isThere (d : Disk) (path : String) : Bool :=
  (d.place? path).any fun place => d.isFolder place || d.isFile place

def read? (d : Disk) (path : String) : Option ByteArray :=
  (d.place? path).bind fun place => d.files.lookup place

def placeLe : Place → Place → Bool
  | [], _ => true
  | _ :: _, [] => false
  | a :: as, b :: bs => a < b || (a = b && placeLe as bs)

def filesBelow (d : Disk) (place : Place) : List (List String) :=
  ((d.files.filter fun e => place.isPrefixOf e.1).map fun e => e.1.drop place.length).mergeSort
    placeLe

def filesBelow? (d : Disk) (path : String) : Option (List (List String)) :=
  if d.isThere path then (d.place? path).map d.filesBelow else none

def isFolderAt (d : Disk) (path : String) : Bool := (d.place? path).any d.isFolder

/-- Make a folder in one that is there. Its path may end in slashes. -/
def makeFolder? (d : Disk) (path : String) : Option Disk := do
  let steps := dropEndWhile (· = "") (splitText '/' path)
  let place ← d.follow (d.start path) steps
  let name ← place.getLast?
  if d.isFolder place || d.isFile place || !isName name then none
  else some { d with folders := place :: d.folders }

/-- Make a folder, and where that fails first the folder that its path leads through. The number
bounds how many folders that are. -/
def makeFoldersUpTo : Nat → Disk → String → Option Disk
  | 0, _, _ => none
  | count + 1, d, path =>
    if path = "" || d.isFolderAt path then some d
    else match d.makeFolder? path with
      | some d => some d
      | none => do
        let d ← makeFoldersUpTo count d (← Path.parent? path)
        if d.isFolderAt path then some d else d.makeFolder? path

def makeFolders? (d : Disk) (path : String) : Option Disk :=
  makeFoldersUpTo ((splitText '/' path).length + 1) d path

/-- Write a file into a folder that is there. -/
def write? (d : Disk) (path : String) (content : ByteArray) : Option Disk := do
  let place ← d.place? path
  let name ← place.getLast?
  if d.isFolder place || !isName name then none
  else some { d with files := (place, content) :: d.files.filter (·.1 ≠ place) }

/-- A disk with a file and all the folders it is in. -/
def store (d : Disk) (path : String) (content : ByteArray) : Option Disk :=
  (d.makeFolders? ((Path.parent? path).getD "")).bind fun d => d.write? path content

end Disk

structure Session where
  disk : Disk
  output : String := ""
  messages : String := ""
  /-- What the clock says. -/
  elapsed : String := "0ms"
  deriving Inhabited

def Session.attempt (s : Session) (change : Disk → Option Disk) : Bool × Session :=
  match change s.disk with
  | some disk => (true, { s with disk })
  | none => (false, s)

instance : Machine (StateM Session) where
  workingFolder := do pure ("/" ++ "/".intercalate (← get).disk.workingFolder)
  isThere path := do pure ((← get).disk.isThere path)
  read? path := do pure ((← get).disk.read? path)
  filesBelow? path := do pure ((← get).disk.filesBelow? path)
  makeFolders path := modifyGet (·.attempt (·.makeFolders? path))
  write path content := modifyGet (·.attempt (·.write? path content.toUTF8))
  print text := modify fun s => { s with output := s.output ++ text }
  note text := modify fun s => { s with messages := s.messages ++ text }
  elapsed := do pure (← get).elapsed

end Sitewright.CommandLine
