import Sitewright.Project.Manifest
import Sitewright.Proofs.Folder.Lookup
import Sitewright.Proofs.Table

/-!
# Package manifests

The package manifest of a project is written last, in the place of that of the template or at the
end of the root folder. It has the name and the packages of the project over the fields that were
there before.
-/

namespace Sitewright

namespace PackageManifest

variable {fields before : Table Json} {name key other : String} {versions devVersions : Table String}
  {isFromTemplate : Bool}

theorem fieldsOf_object (t : Table Json) : fieldsOf (some (.object t.entries)) = t :=
  Table.ofList_entries t

theorem get?_mergeVersions : (mergeVersions fields key versions).get? other =
    if other = key then
      some (.object ((fieldsOf (fields.get? key)).overlay (versions.map .string)).entries)
    else fields.get? other :=
  Table.get?_insert _ _ _ _

/-- The fields of a manifest after a name and packages were laid over those that it had before. -/
structure Completed (before : Table Json) (name : String) (version? : String → Option String)
    (fields : Table Json) : Prop where
  name : fields.get? "name" = some (.string name)
  dependencies : ∃ packages : Table Json,
    fields.get? "dependencies" = some (.object packages.entries) ∧
    ∀ package, packages.get? package =
      ((version? package).map .string).or ((fieldsOf (before.get? "dependencies")).get? package)
  others : ∀ key, key ∉ ["name", "dependencies", "devDependencies"] →
    fields.get? key = before.get? key

theorem completed_mergeVersions :
    Completed before name versions.get?
      (mergeVersions (before.insert "name" (.string name)) "dependencies" versions) := by
  refine ⟨?_, ⟨_, get?_mergeVersions, fun package => ?_⟩, fun key hkey => ?_⟩
  · rw [get?_mergeVersions, if_neg (by decide), Table.get?_insert, if_pos rfl]
  · rw [Table.get?_overlay, Table.get?_map, Table.get?_insert, if_neg (by decide)]
  · simp only [List.mem_cons, List.not_mem_nil, or_false, not_or] at hkey
    obtain ⟨hname, hdependencies, -⟩ := hkey
    rw [get?_mergeVersions, if_neg hdependencies, Table.get?_insert, if_neg hname]

theorem Completed.mergeVersions_dev {version? : String → Option String}
    (h : Completed before name version? fields) (devVersions : Table String) :
    Completed before name version? (mergeVersions fields "devDependencies" devVersions) := by
  obtain ⟨packages, hpackages, hversions⟩ := h.dependencies
  refine ⟨?_, ⟨packages, ?_, hversions⟩, fun key hkey => ?_⟩
  · rw [get?_mergeVersions, if_neg (by decide), h.name]
  · rw [get?_mergeVersions, if_neg (by decide), hpackages]
  · rw [get?_mergeVersions, if_neg fun heq => hkey (by simp [heq]), h.others key hkey]

theorem completed_complete :
    Completed before name versions.get? (complete before name versions devVersions isFromTemplate) := by
  rw [complete]
  split
  · exact completed_mergeVersions
  · exact completed_mergeVersions.mergeVersions_dev devVersions

end PackageManifest

open PackageManifest

theorem isManifest_eq_isAt : isManifest = (·.isAt "package" (some "json")) := rfl

def PackageManifest.content? (folder : Folder) (name : String)
    (versions devVersions : Table String) : Option String :=
  match folder.at? [] "package" (some "json") with
  | some file => updated? file.content name versions devVersions
  | none => some (fresh name versions devVersions)

theorem exists_manifest {folder result : Folder} {p : Project}
    {versions devVersions : Table String}
    (h : completePackageManifest folder p versions devVersions = .ok result) :
    ∃ file, file.isAt "package" (some "json") = true ∧
      content? folder (slug p.name) versions devVersions = some file.content ∧
      result = folder.inject [] [file] := by
  have hroot : folder.at? [] "package" (some "json") =
    folder.files.find? (·.isAt "package" (some "json")) := rfl
  rw [completePackageManifest, isManifest_eq_isAt] at h
  rw [content?, hroot]
  cases hfound : folder.files.find? (·.isAt "package" (some "json")) with
  | none =>
    simp only [hfound, Except.ok.injEq] at h
    have hat (content : String) :
        (File.ofParts "package" "json" content).isAt "package" (some "json") = true := rfl
    refine ⟨File.ofParts "package" "json" (fresh (slug p.name) versions devVersions), hat _, rfl, ?_⟩
    rw [← h, Folder.inject, Folder.changeAt, Folder.place, List.foldl_cons, List.foldl_nil,
      Folder.placeFile_of_find?_eq_none (hat _) hfound]
  | some file =>
    simp only [hfound] at h
    cases hcontent : updated? file.content (slug p.name) versions devVersions with
    | none => simp [hcontent] at h
    | some content =>
      simp only [hcontent, Except.ok.injEq] at h
      have hat := List.find?_some hfound
      refine ⟨{ file with content }, hat, hcontent, ?_⟩
      rw [← h, Folder.changeFile?_eq_placeFile hfound rfl hat]
      rfl

/-- The package manifest is one more file that is put into the root folder. -/
theorem completePackageManifest_eq_inject {folder result : Folder} {p : Project}
    {versions devVersions : Table String}
    (h : completePackageManifest folder p versions devVersions = .ok result) :
    ∃ file, file.isAt "package" (some "json") = true ∧ result = folder.inject [] [file] := by
  obtain ⟨file, hat, -, hresult⟩ := exists_manifest h
  exact ⟨file, hat, hresult⟩

/-- The fields that the package manifest of a folder starts from: those of the object that is there,
or else those of a project without one. -/
inductive PackageManifest.StartsFrom (folder : Folder) (name : String) : Table Json → Prop
  | initial (h : folder.at? [] "package" (some "json") = none) :
      StartsFrom folder name (initial name)
  | existing {file : File} {document : Json.Document} {fields : List (String × Json)}
      (h : folder.at? [] "package" (some "json") = some file)
      (hread : (Json.read? file.content).bind Json.Document.ofJson? = some document)
      (hfields : document.value = .object fields) :
      StartsFrom folder name (Table.ofList fields)

theorem PackageManifest.StartsFrom.of_at?_eq {folder template : Folder} {name : String}
    {before : Table Json} (h : StartsFrom template name before)
    (hsame : folder.at? [] "package" (some "json") = template.at? [] "package" (some "json")) :
    StartsFrom folder name before := by
  cases h with
  | initial hnone => exact .initial (hsame.trans hnone)
  | existing hsome hread hfields => exact .existing (hsame.trans hsome) hread hfields

theorem PackageManifest.updated?_of_object {content : String} {document : Json.Document}
    {fields : List (String × Json)} {name : String} {versions devVersions : Table String}
    (hread : (Json.read? content).bind Json.Document.ofJson? = some document)
    (hfields : document.value = .object fields) : updated? content name versions devVersions =
      some (Json.object
        (complete (Table.ofList fields) name versions devVersions true).entries).pretty := by
  obtain ⟨value, hvalue, hdocument⟩ := Option.bind_eq_some_iff.1 hread
  simp [updated?, hvalue, hdocument, hfields]

theorem at?_inject_manifest {folder : Folder} {file : File}
    (hat : file.isAt "package" (some "json") = true) :
    (folder.inject [] [file]).at? [] "package" (some "json") = some file := by
  have hlast : lastFile? [file] "package" (some "json") = some file := by simp [lastFile?, hat]
  rw [Folder.at?_inject, if_pos rfl, hlast, Option.some_or]

/-- A folder that starts with no manifest or with an object has a manifest with the packages over the
fields it started from. -/
theorem exists_completed {folder result : Folder} {p : Project} {versions devVersions : Table String}
    {before : Table Json} (h : completePackageManifest folder p versions devVersions = .ok result)
    (hstart : StartsFrom folder (slug p.name) before) :
    ∃ file fields, result.at? [] "package" (some "json") = some file ∧
      file.content = (Json.object fields.entries).pretty ∧
      Completed before (slug p.name) versions.get? fields := by
  obtain ⟨file, hat, hcontent, rfl⟩ := exists_manifest h
  have hfile : (folder.inject [] [file]).at? [] "package" (some "json") = some file :=
    at?_inject_manifest hat
  rw [content?] at hcontent
  cases hstart with
  | initial hnone =>
    rw [hnone] at hcontent
    exact ⟨file, _, hfile, (Option.some.inj hcontent).symm, completed_complete⟩
  | existing hsome hread hfields =>
    simp only [hsome, updated?_of_object hread hfields, Option.some.injEq] at hcontent
    exact ⟨file, _, hfile, hcontent.symm, completed_complete⟩

end Sitewright
