import Sitewright.Draft

/-!
# Import declarations

The imports of a draft become one declaration for each module, in three chunks: libraries, other
packages and local modules.
-/

namespace Sitewright.React

open Script (ImportClause)

/-- One whole binding of a module. Two under different names are a fault. -/
def mergeBinding (source : String) : Option String → Option String → Outcome (Option String)
  | some existing, some incoming =>
    if existing = incoming then .ok (some existing)
    else .error (.conflictingImport source existing incoming)
  | existing, incoming => .ok (existing.or incoming)

def mergeClause (source : String) (existing incoming : ImportClause) : Outcome ImportClause := do
  let default ← mergeBinding source existing.default incoming.default
  let namespaceName ← mergeBinding source existing.namespaceName incoming.namespaceName
  let added := incoming.named.filter (!existing.named.contains ·)
  pure { default, namespaceName, named := existing.named ++ added }

/-- Add a clause to the declaration of its module, or a new declaration at the end. -/
def declare (source : String) (clause : ImportClause) :
    List (String × ImportClause) → Outcome (List (String × ImportClause))
  | [] => .ok [(source, clause)]
  | (s, c) :: rest =>
    if s = source then (mergeClause source c clause).map fun c => (s, c) :: rest
    else (declare source clause rest).map ((s, c) :: ·)

/-- The declarations for the dependencies of one kind, in the order in which their modules first
come up among the identifiers. -/
def declarations (kind : DependencyKind) (imports : Imports) :
    Outcome (List (String × ImportClause)) :=
  (imports.records.entries.filter (·.2.kind = kind)).foldlM
    (fun declared e => declare e.2.source (e.2.importClause e.1) declared) []

/-- The chunk of some declarations, hidden if there are none. -/
def declarationsChunk (name : String) (declared : List (String × ImportClause)) : Chunk :=
  let chunk := Chunk.ofCode name .js (.program (declared.map fun e => .importing e.1 e.2))
  if declared.isEmpty then chunk.withFlag .hidden else chunk

def importStatements : Plugin where
  name := "import-statements"
  run d := do
    let imports ← d.allImports
    let libraries ← declarations .library imports
    let packages ← declarations .package imports
    let locals ← declarations .localPath imports
    pure (d.addChunks [declarationsChunk "import-lib" libraries,
      declarationsChunk "import-pack" packages, declarationsChunk "import-local" locals])

end Sitewright.React
