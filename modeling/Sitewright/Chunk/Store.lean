import Sitewright.Chunk.Basic
import Sitewright.Chunk.Order
import Sitewright.Dependency.Imports

/-!
# Stores of chunks

The chunks of a component in the order in which they were added. A chunk is found by its file type
and name, and a chunk added under the key of another takes its place. The text of a file is made of
the texts of its emitting chunks in link order, a line feed between two of them.
-/

namespace Sitewright

def Chunk.isAt (c : Chunk) (fileType : FileType) (name : String) : Bool :=
  c.fileType = fileType && c.name = name

structure ChunkStore where
  chunks : List Chunk := []
  deriving Inhabited

namespace ChunkStore

/-- Put a chunk in the place of the chunk with its key, or else at the end. -/
def placeChunk (chunk : Chunk) : List Chunk → List Chunk
  | [] => [chunk]
  | c :: rest =>
    if c.isAt chunk.fileType chunk.name then chunk :: rest else c :: placeChunk chunk rest

def add (store : ChunkStore) (chunk : Chunk) : ChunkStore := ⟨placeChunk chunk store.chunks⟩

def addAll (store : ChunkStore) (chunks : List Chunk) : ChunkStore := chunks.foldl add store

def ofList (chunks : List Chunk) : ChunkStore := addAll {} chunks

def get? (store : ChunkStore) (fileType : FileType) (name : String) : Option Chunk :=
  store.chunks.find? (·.isAt fileType name)

def contains (store : ChunkStore) (fileType : FileType) (name : String) : Bool :=
  store.chunks.any (·.isAt fileType name)

def remove (store : ChunkStore) (fileType : FileType) (name : String) : ChunkStore :=
  ⟨store.chunks.eraseP (·.isAt fileType name)⟩

def require (store : ChunkStore) (plugin : String) (fileType : FileType) (name : String) :
    Outcome Chunk :=
  match store.get? fileType name with
  | some chunk => .ok chunk
  | none => .error (.missingChunk plugin name fileType)

def ofType (store : ChunkStore) (fileType : FileType) : List Chunk :=
  store.chunks.filter (·.fileType = fileType)

/-- The file types of the chunks that emit, in the order of their first such chunks. -/
def fileTypes (store : ChunkStore) : List FileType :=
  ((store.chunks.filter (·.emits)).map (·.fileType)).eraseDups

def dependencies (store : ChunkStore) : List (String × Dependency) :=
  store.chunks.flatMap (·.dependencies)

/-! ## Linking -/

def piece (fileType : FileType) (chunk : Chunk) : Outcome String :=
  let representation := chunk.content.representation
  if fileType.accepts representation then .ok chunk.content.render
  else .error (.unsupportedRepresentation chunk.name representation fileType)

def links (chunks : List Chunk) : List (String × List String) :=
  chunks.map fun c => (c.name, c.linkAfter)

def order (store : ChunkStore) (fileType : FileType) : Outcome (List Nat) :=
  LinkOrder.resolve fileType (links (store.ofType fileType))

def ordered (store : ChunkStore) (fileType : FileType) : Outcome (List Chunk) :=
  (store.order fileType).map fun order => order.filterMap fun i => (store.ofType fileType)[i]?

def link (store : ChunkStore) (fileType : FileType) : Outcome String := do
  let chunks ← store.ordered fileType
  let pieces ← (chunks.filter (·.emits)).mapM (piece fileType)
  pure ("\n".intercalate pieces)

/-- The texts of all files, by file type in the order of first emission. -/
def linkAll (store : ChunkStore) : Outcome (List (FileType × String)) :=
  store.fileTypes.mapM fun fileType => (store.link fileType).map (fileType, ·)

end ChunkStore

end Sitewright
