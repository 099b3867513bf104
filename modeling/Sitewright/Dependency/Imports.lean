import Sitewright.Dependency.Basic
import Sitewright.Fault

/-!
# Collected imports

The dependencies of a piece of generated code by the identifiers it uses. An identifier keeps the
module it was first given; a later record from that module replaces the earlier one.
-/

namespace Sitewright

structure Imports where
  records : Table Dependency := ∅
  deriving DecidableEq

namespace Imports

def empty : Imports := {}

instance : Inhabited Imports := ⟨empty⟩

def get? (imports : Imports) (identifier : String) : Option Dependency :=
  imports.records.get? identifier

/-- Give `identifier` a record, unless it already comes from another module. -/
def merge (imports : Imports) (identifier : String) (record : Dependency) : Outcome Imports :=
  match imports.get? identifier with
  | some existing =>
    if existing.source = record.source then .ok ⟨imports.records.insert identifier record⟩
    else .error (.ambiguousDependency identifier existing.source record.source)
  | none => .ok ⟨imports.records.insert identifier record⟩

/-- Merge records one after another, up to the first fault: the records merged so far, and the
fault. -/
def mergeSome (imports : Imports) : List (String × Dependency) → Imports × Option Fault
  | [] => (imports, none)
  | (identifier, record) :: rest =>
    match imports.merge identifier record with
    | .ok imports => imports.mergeSome rest
    | .error fault => (imports, some fault)

def mergeAll (imports : Imports) (records : List (String × Dependency)) : Outcome Imports :=
  records.foldlM (fun imports r => imports.merge r.1 r.2) imports

/-- Merge the records of another collection in the order of their identifiers, as far as that
goes. -/
def extend (imports other : Imports) : Imports × Option Fault :=
  imports.mergeSome other.records.entries

/-- The versions of published packages. A package that several identifiers use has the version of
the last identifier. -/
def packageVersions (imports : Imports) : Table String :=
  Table.ofList (imports.records.values.filterMap fun d =>
    if d.isPublished then d.version.map fun version => (d.source, version) else none)

end Imports

end Sitewright
