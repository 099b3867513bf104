import Sitewright.Configuration.Basic
import Sitewright.Fault

/-!
# What commands need and how they fail

Commands run in any monad that gives access to files, to two streams of text and to a clock. An
operation on files that may fail says so in its result.
-/

namespace Sitewright.CommandLine

class Machine (m : Type → Type) where
  /-- The absolute path of the folder that relative paths start from. -/
  workingFolder : m String
  /-- Whether there is a file or a folder at a path. -/
  isThere : String → m Bool
  /-- The bytes of a file. -/
  read? : String → m (Option ByteArray)
  /-- The files at or below a path, each by the steps that lead to it from there. Files and folders
  are taken in the order of their names, what is in a folder in its place. -/
  filesBelow? : String → m (Option (List (List String)))
  /-- Make a folder and those it is in; whether all are there now. -/
  makeFolders : String → m Bool
  /-- Write a file; whether it has been written. -/
  write : String → String → m Bool
  /-- Write to the output stream. -/
  print : String → m Unit
  /-- Write to the stream of messages. -/
  note : String → m Unit
  /-- The time since the start, in words. -/
  elapsed : m String

inductive Failure
  | configurationNotRead (path : String)
  | configuration (fault : Configuration.Fault)
  | inputNotRead (path : String)
  | badComponent (path : String)
  | badProject (path : String) (fault : Fault)
  | generation (fault : Fault)
  | unknownPreset (name : String)
  | projectFolderNotMade
  | folderNotMade (path : String)
  | notWritten (path : String)
  | templateNotWalked (path : String)
  | templateFileNotRead (path : String)
  deriving Repr, DecidableEq, Inhabited

namespace Failure

def message : Failure → String
  | configurationNotRead path => s!"Failed to read config file: {path}"
  | configuration fault => fault.message
  | inputNotRead path => s!"Failed to read UIDL file: {path}"
  | badComponent path => s!"Invalid component UIDL: {path}"
  | badProject path _ => s!"Invalid project UIDL: {path}"
  | generation fault => fault.message
  | unknownPreset name => s!"Unknown preset '{name}', expected react or html"
  | projectFolderNotMade => "Failed to create project directory"
  | folderNotMade path => s!"Failed to create {path}"
  | notWritten path => s!"Failed to write {path}"
  | templateNotWalked path => s!"Failed to walk template {path}"
  | templateFileNotRead path => s!"Failed to read template file {path}"

def cause? : Failure → Option Fault
  | badProject _ fault | generation fault => some fault
  | _ => none

end Failure

abbrev Run (m : Type → Type) (α : Type) := ExceptT Failure m α

section
variable {m : Type → Type} [Monad m] [Machine m]

def ensure (failure : Failure) (operation : m Bool) : Run m Unit := do
  if !(← operation) then throw failure

/-- The text of a file, which is in UTF-8. -/
def readText (failure : Failure) (path : String) : Run m String := do
  match (← Machine.read? (m := m) path).bind String.fromUTF8? with
  | some text => pure text
  | none => throw failure

def generated {α : Type} : Outcome α → Run m α
  | .ok a => pure a
  | .error fault => throw (.generation fault)

end

end Sitewright.CommandLine
