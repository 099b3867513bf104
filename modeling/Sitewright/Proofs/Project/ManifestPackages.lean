import Sitewright.Proofs.Project.ManifestInPlace

/-!
# The packages in a package manifest

The packages of a project get into its package manifest if there was none before or if it was an
object. A manifest that is another value is printed anew without them.
-/

namespace Sitewright

open PackageManifest

/-- The package manifest at the root of a folder is the text of an object whose dependencies have
some versions. -/
def HoldsPackages (folder : Folder) (versions : Table String) : Prop :=
  ∃ file, ∃ fields packages : Table Json,
    folder.at? [] "package" (some "json") = some file ∧
    file.content = (Json.object fields.entries).pretty ∧
    fields.get? "dependencies" = some (.object packages.entries) ∧
    ∀ package version, versions.get? package = some version →
      packages.get? package = some (.string version)

variable {folder result : Folder} {p : Project} {versions devVersions : Table String}

theorem holdsPackages_of_startsFrom {before : Table Json}
    (h : completePackageManifest folder p versions devVersions = .ok result)
    (hstart : StartsFrom folder (slug p.name) before) : HoldsPackages result versions := by
  obtain ⟨file, fields, hfile, hcontent, hcompleted⟩ := exists_completed h hstart
  obtain ⟨packages, hpackages, hversions⟩ := hcompleted.dependencies
  refine ⟨file, fields, packages, hfile, hcontent, hpackages, fun package version hversion => ?_⟩
  rw [hversions, hversion, Option.map_some, Option.some_or]

theorem PackageManifest.updated?_of_ne_object {content name : String} {document : Json.Document}
    (hread : (Json.read? content).bind Json.Document.ofJson? = some document)
    (hother : ∀ fields, document.value ≠ .object fields) :
    updated? content name versions devVersions = some document.value.pretty := by
  obtain ⟨value, hvalue, hdocument⟩ := Option.bind_eq_some_iff.1 hread
  cases hcases : document.value with
  | object fields => exact absurd hcases (hother fields)
  | _ => simp [updated?, hvalue, hdocument, hcases]

/-- A manifest that is no object is printed anew. -/
theorem startsFrom_or_printed
    (h : completePackageManifest folder p versions devVersions = .ok result) :
    (∃ before, StartsFrom folder (slug p.name) before) ∨
    ∃ old document file, folder.at? [] "package" (some "json") = some old ∧
      (Json.read? old.content).bind Json.Document.ofJson? = some document ∧
      (∀ fields, document.value ≠ .object fields) ∧
      result.at? [] "package" (some "json") = some file ∧
      file.content = document.value.pretty := by
  obtain ⟨file, hat, hcontent, rfl⟩ := exists_manifest h
  rw [content?] at hcontent
  cases hold : folder.at? [] "package" (some "json") with
  | none => exact .inl ⟨_, .initial hold⟩
  | some old =>
    simp only [hold] at hcontent
    cases hread : (Json.read? old.content).bind Json.Document.ofJson? with
    | none =>
      rw [updated?_eq_none_iff.2 hread] at hcontent
      cases hcontent
    | some document =>
      by_cases hobject : ∃ fields, document.value = .object fields
      · obtain ⟨fields, hfields⟩ := hobject
        exact .inl ⟨_, .existing hold hread hfields⟩
      · have hother : ∀ fields, document.value ≠ .object fields := not_exists.1 hobject
        rw [updated?_of_ne_object hread hother] at hcontent
        exact .inr ⟨old, document, file, rfl, hread, hother, at?_inject_manifest hat,
          (Option.some.inj hcontent).symm⟩

theorem not_holdsPackages_of_printed {document : Json.Document} {file : File}
    (hother : ∀ fields, document.value ≠ .object fields)
    (hfile : result.at? [] "package" (some "json") = some file)
    (hcontent : file.content = document.value.pretty) : ¬ HoldsPackages result versions := by
  rintro ⟨file', fields, packages, hfile', hcontent', -⟩
  rw [hfile] at hfile'
  cases hfile'
  obtain ⟨fields', heq⟩ := Json.eq_object_of_pretty_eq (hcontent.symm.trans hcontent')
  exact hother fields' heq

/-- Where writing the packages of a project succeeds, the package manifest holds them exactly if
there was no manifest before or the one there was is an object. Any other manifest is only printed
anew. -/
theorem packages_held_iff (h : completePackageManifest folder p versions devVersions = .ok result) :
    (HoldsPackages result versions ↔ ∃ before, StartsFrom folder (slug p.name) before) ∧
    ((¬ ∃ before, StartsFrom folder (slug p.name) before) → ∃ old document file,
      folder.at? [] "package" (some "json") = some old ∧
      (Json.read? old.content).bind Json.Document.ofJson? = some document ∧
      result.at? [] "package" (some "json") = some file ∧
      file.content = document.value.pretty) := by
  obtain hstart | ⟨old, document, file, hold, hread, hother, hfile, hcontent⟩ :=
    startsFrom_or_printed h
  · refine ⟨⟨fun _ => hstart, fun _ => ?_⟩, fun hnot => absurd hstart hnot⟩
    obtain ⟨before, hbefore⟩ := hstart
    exact holdsPackages_of_startsFrom h hbefore
  · have hdropped : ¬ HoldsPackages result versions :=
      not_holdsPackages_of_printed hother hfile hcontent
    refine ⟨⟨fun hheld => absurd hheld hdropped, ?_⟩,
      fun _ => ⟨old, document, file, hold, hread, hfile, hcontent⟩⟩
    rintro ⟨before, hbefore⟩
    exact absurd (holdsPackages_of_startsFrom h hbefore) hdropped

theorem packages_held_iff_port : ∃ result,
    completePackageManifest portTemplate portShop (.ofList [("react", "16.8.3")]) ∅ = .ok result ∧
    HoldsPackages result (.ofList [("react", "16.8.3")]) := by
  obtain ⟨result, hresult⟩ : ∃ result, completePackageManifest portTemplate portShop
      (.ofList [("react", "16.8.3")]) ∅ = .ok result := by
    have htext : updated? portText (slug portShop.name) (.ofList [("react", "16.8.3")]) ∅ =
        some _ := updated?_of_object read_portText value_portDocument
    exact ⟨_, rootManifest_portTemplate.complete.trans (by rw [File.ofParts, htext])⟩
  have hstart : StartsFrom portTemplate (slug portShop.name) (Table.ofList portFields) :=
    .existing rfl read_portText value_portDocument
  exact ⟨result, hresult, (packages_held_iff hresult).1.2 ⟨_, hstart⟩⟩

def listTemplate : Folder where
  name := "app"
  files := [.ofParts "package" "json" "[]"]

def listDocument : Json.Document := .ofJson (.array []) rfl

theorem read_listText : (Json.read? "[]").bind Json.Document.ofJson? = some listDocument := by
  have htokens : Json.tokensOf "[]".toList = some [.openBracket, .closeBracket] := by
    decide +kernel
  have hread : Json.read? "[]" = some (.array []) := by
    rw [Json.read?, htokens]
    rfl
  rw [hread]
  rfl

/-- The packages of a project are dropped without a fault if the manifest is a list. -/
theorem packages_dropped : ∃ result,
    completePackageManifest listTemplate portShop (.ofList [("react", "16.8.3")]) ∅ = .ok result ∧
    result.files.map (·.content) = ["[]"] ∧
    ¬ HoldsPackages result (.ofList [("react", "16.8.3")]) := by
  have hroot : RootManifest listTemplate [] (.ofParts "package" "json" "[]") [] :=
    ⟨rfl, rfl, by simp⟩
  have hother : ∀ fields, listDocument.value ≠ .object fields := by
    rintro fields ⟨⟩
  have htext : updated? "[]" (slug portShop.name) (.ofList [("react", "16.8.3")]) ∅ =
      some "[]" := updated?_of_ne_object read_listText hother
  refine ⟨listTemplate, ?_, rfl, ?_⟩
  · rw [hroot.complete, File.ofParts, htext]
    rfl
  · exact not_holdsPackages_of_printed hother rfl rfl

end Sitewright
