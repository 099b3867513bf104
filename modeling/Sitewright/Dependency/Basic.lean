import Sitewright.Json.Decode
import Sitewright.Script.Basic

/-!
# Dependencies

A dependency says where an identifier of generated code comes from and how it is imported.
-/

namespace Sitewright

/-- Where a dependency is found: a library of the target framework, another published package, or a
path inside the project. -/
inductive DependencyKind
  | library
  | package
  | localPath
  deriving Repr, DecidableEq, Inhabited

inductive ImportKind
  | default
  | named
  | namespaceImport
  /-- The module is imported for its effects and binds nothing. -/
  | sideEffect
  deriving Repr, DecidableEq, Inhabited

structure Dependency where
  kind : DependencyKind
  /-- A package name or a relative path. -/
  source : String
  version : Option String := none
  importKind : ImportKind := .default
  /-- The exported name, where the identifier differs from it. -/
  exportedName : Option String := none
  deriving Repr, DecidableEq, Inhabited

namespace DependencyKind

def name : DependencyKind → String
  | .library => "library"
  | .package => "package"
  | .localPath => "local"

def ofJson? (form : Json.Form) (j : Json) : Option DependencyKind := do
  match ← form.word? j with
  | "library" => pure .library
  | "package" => pure .package
  | "local" => pure .localPath
  | _ => none

end DependencyKind

namespace ImportKind

def name : ImportKind → String
  | .default => "default"
  | .named => "named"
  | .namespaceImport => "namespace"
  | .sideEffect => "side-effect"

def ofJson? (form : Json.Form) (j : Json) : Option ImportKind := do
  match ← form.word? j with
  | "default" => pure .default
  | "named" => pure .named
  | "namespace" => pure .namespaceImport
  | "side-effect" => pure .sideEffect
  | _ => none

end ImportKind

namespace Dependency

def library (source version : String) : Dependency :=
  { kind := .library, source, version := some version }

def localPath (path : String) : Dependency := { kind := .localPath, source := path }

def named (d : Dependency) : Dependency := { d with importKind := .named }

def sideEffect (d : Dependency) : Dependency := { d with importKind := .sideEffect }

/-- Whether the dependency belongs into a package manifest. -/
def isPublished (d : Dependency) : Bool := d.kind ≠ .localPath && d.version.isSome

def importClause (d : Dependency) (identifier : String) : Script.ImportClause :=
  match d.importKind with
  | .default => { default := some identifier }
  | .namespaceImport => { namespaceName := some identifier }
  | .named => { named := [⟨d.exportedName.getD identifier, identifier⟩] }
  | .sideEffect => {}

open Json in
def toJson (d : Dependency) : Json :=
  .object ([("type", .string d.kind.name), ("source", .string d.source)] ++
    fieldIfSome "version" .string d.version ++ [("import", .string d.importKind.name)] ++
    fieldIfSome "original_name" .string d.exportedName)

open Json in
def ofJson? (form : Form) (j : Json) : Option Dependency := do
  match ← form.record? [["type"], ["source", "path"], ["version"], ["import"],
    ["original_name"]] j with
  | [kind, source, version, importKind, exportedName] =>
    pure { kind := ← required (DependencyKind.ofJson? form) kind
           source := ← required string? source
           version := ← nullable string? version
           importKind := ← defaulted (ImportKind.ofJson? form) .default importKind
           exportedName := ← nullable string? exportedName }
  | _ => none

end Dependency

end Sitewright
