import Sitewright.Folder
import Sitewright.Json.Printer
import Sitewright.Path
import Sitewright.Project.Basic

/-!
# Manifests

The web application manifest, and the package manifest, which is laid over the one that the project
starts with.
-/

namespace Sitewright

def ManifestIcon.prefixed (assetsPrefix : String) (i : ManifestIcon) : ManifestIcon :=
  { i with src := prefixAssetPath assetsPrefix i.src }

/-- The web manifest of a project: what it declares, over defaults. -/
def webManifest (p : Project) (manifest : WebManifest) (assetsPrefix : String) : Table Json :=
  let defaults := [("short_name", .string p.name), ("name", .string p.name),
    ("display", .string "standalone"), ("start_url", .string "/")]
  let icons := manifest.icons.map (·.prefixed assetsPrefix)
  (Table.ofList defaults).insertAll ({ manifest with icons } : WebManifest).fields

def webManifestFile? (p : Project) (assetsPrefix : String) : Option File :=
  p.globals.manifest.map fun manifest =>
    let content := Json.object (webManifest p manifest assetsPrefix).entries
    File.ofParts "manifest" "json" content.canonical.pretty

namespace PackageManifest

/-- The manifest of a project that starts without one. -/
def initial (name : String) : Table Json :=
  Table.ofList [("name", .string name), ("version", .string "1.0.0"), ("private", .bool true),
    ("scripts", .object [])]

def fieldsOf : Option Json → Table Json
  | some (.object fields) => Table.ofList fields
  | _ => ∅

/-- Lay versions over the object under a key. -/
def mergeVersions (fields : Table Json) (key : String) (versions : Table String) : Table Json :=
  let merged := (fieldsOf (fields.get? key)).overlay (versions.map .string)
  fields.insert key (.object merged.entries)

def complete (fields : Table Json) (name : String) (versions devVersions : Table String)
    (isFromTemplate : Bool) : Table Json :=
  let fields := mergeVersions (fields.insert "name" (.string name)) "dependencies" versions
  if devVersions.isEmpty && !isFromTemplate then fields
  else mergeVersions fields "devDependencies" devVersions

def isManifest (f : File) : Bool := f.name = "package" && f.extension = some "json"

/-- The text of a manifest that was there before. Only objects are changed. -/
def updated? (content name : String) (versions devVersions : Table String) : Option String := do
  let existing ← (← Json.read? content) |> Json.Document.ofJson?
  match existing.value with
  | .object fields =>
    let fields := complete (Table.ofList fields) name versions devVersions true
    pure (Json.object fields.entries).pretty
  | other => pure other.pretty

def fresh (name : String) (versions devVersions : Table String) : String :=
  (Json.object (complete (initial name) name versions devVersions false).entries).pretty

end PackageManifest

def completePackageManifest (folder : Folder) (p : Project) (versions devVersions : Table String) :
    Outcome Folder :=
  let name := slug p.name
  match folder.files.find? PackageManifest.isManifest with
  | some file =>
    match PackageManifest.updated? file.content name versions devVersions with
    | none => .error .json
    | some content =>
      .ok { folder with files := (changeFile? PackageManifest.isManifest
        (fun f => { f with content }) folder.files).getD folder.files }
  | none =>
    let content := PackageManifest.fresh name versions devVersions
    .ok { folder with files := folder.files ++ [File.ofParts "package" "json" content] }

end Sitewright
