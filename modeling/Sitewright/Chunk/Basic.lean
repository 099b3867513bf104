import Sitewright.Dependency.Basic
import Sitewright.Fault
import Sitewright.Markup.Printer
import Sitewright.Script.Printer

/-!
# Chunks

A chunk is a named piece of one file: text, a script or a markup tree, together with the names of
the chunks that it follows and the dependencies of its content.
-/

namespace Sitewright

inductive Content
  | text (s : String)
  | code (node : Script.Node)
  | markup (e : Markup.Element)
  deriving Inhabited

namespace Content

def representation : Content → Representation
  | text _ => .text
  | code _ => .code
  | markup _ => .markup

def render : Content → String
  | text s => s
  | code node => node.text
  | markup e => e.toHtml

end Content

/-- What keeps the content of a chunk out of its file: the chunk has only dependencies to give, or
it only takes part in the order. -/
inductive ChunkFlag
  | importOnly
  | hidden
  deriving Repr, DecidableEq, Inhabited

namespace ChunkFlag

def name : ChunkFlag → String
  | importOnly => "import-only"
  | hidden => "hidden"

def ofName (chunk flag : String) : Outcome ChunkFlag :=
  if flag = "import-only" ∨ flag = "importOnly" then .ok importOnly
  else if flag = "hidden" then .ok hidden
  else .error (.unknownChunkFlag chunk flag)

end ChunkFlag

structure Chunk where
  name : String
  fileType : FileType
  content : Content
  /-- The names of the chunks that come before this one. -/
  linkAfter : List String := []
  isImportOnly : Bool := false
  isHidden : Bool := false
  dependencies : List (String × Dependency) := []
  deriving Inhabited

namespace Chunk

def ofText (name : String) (fileType : FileType) (text : String) : Chunk :=
  { name, fileType, content := .text text }

def ofCode (name : String) (fileType : FileType) (node : Script.Node) : Chunk :=
  { name, fileType, content := .code node }

def ofMarkup (name : String) (fileType : FileType) (e : Markup.Element) : Chunk :=
  { name, fileType, content := .markup e }

def ofDependencies (name : String) (fileType : FileType)
    (dependencies : List (String × Dependency)) : Chunk :=
  { name, fileType, content := .text "", isImportOnly := true, dependencies }

def after (c : Chunk) (names : List String) : Chunk := { c with linkAfter := c.linkAfter ++ names }

def withFlag (c : Chunk) : ChunkFlag → Chunk
  | .importOnly => { c with isImportOnly := true }
  | .hidden => { c with isHidden := true }

def withFlagNamed (c : Chunk) (flag : String) : Outcome Chunk :=
  (ChunkFlag.ofName c.name flag).map c.withFlag

def flags (c : Chunk) : List ChunkFlag :=
  (if c.isImportOnly then [.importOnly] else []) ++ (if c.isHidden then [.hidden] else [])

def emits (c : Chunk) : Bool := !c.isImportOnly && !c.isHidden

def mismatch (c : Chunk) (expected : Representation) : Fault :=
  .representationMismatch c.name expected c.content.representation

def mapText (c : Chunk) (f : String → String) : Outcome Chunk :=
  match c.content with
  | .text s => .ok { c with content := .text (f s) }
  | _ => .error (c.mismatch .text)

def mapCode? (c : Chunk) (f : Script.Node → Option Script.Node) : Outcome (Option Chunk) :=
  match c.content with
  | .code node => .ok ((f node).map fun node => { c with content := .code node })
  | _ => .error (c.mismatch .code)

def mapMarkup (c : Chunk) (f : Markup.Element → Markup.Element) : Outcome Chunk :=
  match c.content with
  | .markup e => .ok { c with content := .markup (f e) }
  | _ => .error (c.mismatch .markup)

end Chunk

end Sitewright
