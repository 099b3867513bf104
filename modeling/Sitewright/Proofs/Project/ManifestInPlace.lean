import Sitewright.Proofs.Json.Nesting
import Sitewright.Proofs.Project.Manifest

/-!
# Package manifests in place

The package manifest of a folder is written in place. All that can fail comes before the first
change, a single file changes, and writing the same packages once more changes nothing.
-/

namespace Sitewright

namespace PackageManifest

/-- The first package manifest at the root of a folder, between the files before and after it. -/
structure RootManifest (folder : Folder) (before : List File) (file : File) (after : List File) :
    Prop where
  files_eq : folder.files = before ++ file :: after
  isManifest : isManifest file = true
  isFirst : ∀ f ∈ before, PackageManifest.isManifest f = false

/-! ## Steps in place -/

/-- Steps that change a folder in place. What was changed before a step that fails stays changed. -/
abbrev InPlace := ExceptT Fault (StateM Folder)

def InPlace.after {α : Type} (steps : InPlace α) (folder : Folder) : Outcome α × Folder :=
  (StateT.run (ExceptT.run steps) folder).run

def writeContent (index : Nat) (content : String) : InPlace Unit :=
  modify fun folder =>
    { folder with files := folder.files.modify index fun f => { f with content } }

def appendFile (file : File) : InPlace Unit :=
  modify fun folder => { folder with files := folder.files ++ [file] }

def completeInPlace (p : Project) (versions devVersions : Table String) : InPlace Unit := do
  let name := slug p.name
  let files := (← get).files
  match files.findIdx? isManifest with
  | some index =>
    match files[index]?.bind fun f => updated? f.content name versions devVersions with
    | some content => writeContent index content
    | none => throw .json
  | none => appendFile (.ofParts "package" "json" (fresh name versions devVersions))

variable {folder : Folder} {before after : List File} {file : File} {p : Project}
  {versions devVersions : Table String}

theorem changeFile?_append {p : File → Bool} (change : File → File)
    (hbefore : ∀ f ∈ before, p f = false) (hfile : p file = true) :
    changeFile? p change (before ++ file :: after) = some (before ++ change file :: after) := by
  induction before with
  | nil => rw [List.nil_append, changeFile?, if_pos hfile, List.nil_append]
  | cons f before ih =>
    obtain ⟨hf, hbefore⟩ := List.forall_mem_cons.1 hbefore
    rw [List.cons_append, changeFile?, hf, ih hbefore]
    rfl

theorem rootManifest_or_none (folder : Folder) :
    (∃ before file after, RootManifest folder before file after) ∨
      ∀ f ∈ folder.files, isManifest f = false := by
  cases hfound : folder.files.find? isManifest with
  | none => exact .inr (by simpa using List.find?_eq_none.1 hfound)
  | some file =>
    obtain ⟨hfile, before, after, hfiles, hbefore⟩ := List.find?_eq_some_iff_append.1 hfound
    exact .inl ⟨before, file, after, hfiles, hfile, fun f hf => by simpa using hbefore f hf⟩

namespace RootManifest

theorem find? (h : RootManifest folder before file after) :
    folder.files.find? PackageManifest.isManifest = some file := by
  rw [h.files_eq]
  exact List.find?_eq_some_iff_append.2
    ⟨h.isManifest, before, after, rfl, fun f hf => by simp [h.isFirst f hf]⟩

theorem findIdx? (h : RootManifest folder before file after) :
    folder.files.findIdx? PackageManifest.isManifest = some before.length := by
  rw [h.files_eq, List.findIdx?_append, List.findIdx?_eq_none_iff.2 h.isFirst, Option.none_or,
    List.findIdx?_cons, h.isManifest]
  simp

theorem changeFile? (h : RootManifest folder before file after) (change : File → File) :
    Sitewright.changeFile? PackageManifest.isManifest change folder.files =
      some (before ++ change file :: after) := by
  rw [h.files_eq]
  exact changeFile?_append _ h.isFirst h.isManifest

theorem complete (h : RootManifest folder before file after) :
    completePackageManifest folder p versions devVersions =
      match updated? file.content (slug p.name) versions devVersions with
      | none => .error .json
      | some content => .ok { folder with files := before ++ { file with content } :: after } := by
  cases htext : updated? file.content (slug p.name) versions devVersions with
  | none => simp only [completePackageManifest, h.find?, htext]
  | some content =>
    simp only [completePackageManifest, h.find?, htext, h.changeFile?, Option.getD_some]

theorem withContent (h : RootManifest folder before file after) (content : String) :
    RootManifest { folder with files := before ++ { file with content } :: after } before
      { file with content } after :=
  ⟨rfl, h.isManifest, h.isFirst⟩

end RootManifest

theorem complete_of_none (h : ∀ f ∈ folder.files, isManifest f = false) :
    completePackageManifest folder p versions devVersions = .ok { folder with
      files := folder.files ++
        [.ofParts "package" "json" (fresh (slug p.name) versions devVersions)] } := by
  have hfound : folder.files.find? isManifest = none := by simpa using h
  rw [completePackageManifest, hfound]

theorem completeInPlace_after (folder : Folder) (p : Project)
    (versions devVersions : Table String) :
    (completeInPlace p versions devVersions).after folder =
      match completePackageManifest folder p versions devVersions with
      | .ok result => (.ok (), result)
      | .error fault => (.error fault, folder) := by
  have hsteps : (completeInPlace p versions devVersions).after folder = InPlace.after
      (match folder.files.findIdx? isManifest with
      | some index =>
        match folder.files[index]?.bind fun f =>
            updated? f.content (slug p.name) versions devVersions with
        | some content => writeContent index content
        | none => throw .json
      | none => appendFile (.ofParts "package" "json" (fresh (slug p.name) versions devVersions)))
      folder := rfl
  rw [hsteps]
  obtain ⟨before, file, after, h⟩ | hnone := rootManifest_or_none folder
  · have hfile : folder.files[before.length]? = some file := by
      rw [h.files_eq]
      simp
    rw [h.findIdx?, h.complete]
    simp only [hfile, Option.bind_some]
    cases updated? file.content (slug p.name) versions devVersions with
    | none => rfl
    | some content =>
      have hfiles : folder.files.modify before.length (fun f => { f with content }) =
          before ++ { file with content } :: after := by
        rw [h.files_eq, List.modify_eq_take_cons_drop (by simp)]
        simp
      have hwritten : (writeContent before.length content).after folder = (.ok (), { folder with
          files := folder.files.modify before.length fun f => { f with content } }) := rfl
      rw [hfiles] at hwritten
      exact hwritten
  · rw [List.findIdx?_eq_none_iff.2 hnone, complete_of_none hnone]
    rfl

/-! ## The same packages once more -/

variable {fields : Table Json} {name key : String} {value? : Option Json}

def laid (value? : Option Json) (versions : Table String) : Json :=
  .object ((fieldsOf value?).overlay (versions.map .string)).entries

theorem laid_laid : laid (some (laid value? versions)) versions = laid value? versions := by
  rw [laid, laid, fieldsOf_object, Table.overlay_twice]

theorem mergeVersions_eq :
    mergeVersions fields key versions = fields.insert key (laid (fields.get? key) versions) := rfl

theorem get?_complete : (complete fields name versions devVersions true).get? key =
    if key = "devDependencies" then some (laid (fields.get? "devDependencies") devVersions)
    else if key = "dependencies" then some (laid (fields.get? "dependencies") versions)
    else if key = "name" then some (.string name)
    else fields.get? key := by
  simp [complete, mergeVersions_eq, Table.get?_insert]

theorem complete_complete :
    complete (complete fields name versions devVersions true) name versions devVersions true =
      complete fields name versions devVersions true := by
  refine Table.ext_get? fun key => ?_
  rw [get?_complete]
  by_cases hdev : key = "devDependencies"
  · rw [if_pos hdev, hdev, get?_complete, if_pos rfl, laid_laid]
  · by_cases hdependencies : key = "dependencies"
    · rw [if_neg hdev, if_pos hdependencies, hdependencies, get?_complete, if_neg (by decide),
        if_pos rfl, laid_laid]
    · by_cases hname : key = "name"
      · rw [if_neg hdev, if_neg hdependencies, if_pos hname, hname, get?_complete,
          if_neg (by decide), if_neg (by decide), if_pos rfl]
      · rw [if_neg hdev, if_neg hdependencies, if_neg hname]

open Json (Writable writable_object writable_string)

theorem writable_laid (h : ∀ value ∈ value?, Writable 1 value) :
    Writable 1 (laid value? versions) := by
  refine writable_object (by decide) fun e he => ?_
  rcases Table.mem_of_mem_insertAll he with he | he
  · cases value? with
    | none => cases he
    | some value =>
      cases value with
      | object before => exact (h _ rfl).of_object.2 e (Table.mem_of_mem_ofList he)
      | _ => cases he
  · obtain ⟨version, -, rfl⟩ := List.mem_map.1 he
    exact writable_string (by decide) _

theorem writable_complete (h : ∀ e ∈ fields.entries, Writable 1 e.2) :
    Writable 0 (.object (complete fields name versions devVersions true).entries) := by
  have hvalue (key : String) : ∀ value ∈ fields.get? key, Writable 1 value :=
    fun value hvalue => h (key, value) (Table.mem_entries_iff.2 hvalue)
  refine writable_object (by decide) fun e he => ?_
  have hget := Table.mem_entries_iff.1 he
  rw [get?_complete] at hget
  split_ifs at hget
  · exact Option.some.inj hget ▸ writable_laid (hvalue _)
  · exact Option.some.inj hget ▸ writable_laid (hvalue _)
  · exact Option.some.inj hget ▸ writable_string (by decide) _
  · exact hvalue _ _ hget

/-- The text of a manifest with some packages does not change when they are written once more. -/
theorem updated?_updated {content text : String} {document : Json.Document}
    {before : List (String × Json)}
    (hread : (Json.read? content).bind Json.Document.ofJson? = some document)
    (hobject : document.value = .object before)
    (hnumbers : ∀ n ∈ document.value.numbers, n.Survives)
    (htext : updated? content name versions devVersions = some text) :
    updated? text name versions devVersions = some text := by
  rw [updated?_of_object hread hobject] at htext
  have hbefore := Json.writable_of_read hread hnumbers
  rw [hobject] at hbefore
  have hwritable : Writable 0 (.object
      (complete (Table.ofList before) name versions devVersions true).entries) :=
    writable_complete fun e he => hbefore.of_object.2 e (Table.mem_of_mem_ofList he)
  obtain ⟨written, hvalue, hwritten⟩ := hwritable.read_pretty
  rw [Option.some.inj htext] at hwritten
  rw [updated?_of_object hwritten hvalue, Table.ofList_entries, complete_complete, htext]

theorem updated?_eq_none_iff {content : String} :
    updated? content name versions devVersions = none ↔
      (Json.read? content).bind Json.Document.ofJson? = none := by
  cases hread : Json.read? content with
  | none => simp [updated?, hread]
  | some value =>
    cases hdocument : Json.Document.ofJson? value with
    | none => simp [updated?, hread, hdocument]
    | some document => cases hvalue : document.value <;> simp [updated?, hread, hdocument, hvalue]

theorem complete_error_iff {fault : Fault} :
    completePackageManifest folder p versions devVersions = .error fault ↔
      fault = .json ∧ ∃ before file after, RootManifest folder before file after ∧
        (Json.read? file.content).bind Json.Document.ofJson? = none := by
  have hroot {before file after} (h : RootManifest folder before file after) :
      completePackageManifest folder p versions devVersions = .error fault ↔
        fault = .json ∧ (Json.read? file.content).bind Json.Document.ofJson? = none := by
    rw [h.complete, ← updated?_eq_none_iff]
    cases updated? file.content (slug p.name) versions devVersions with
    | none => simp [eq_comm]
    | some content => simp
  constructor
  · intro herror
    obtain ⟨before, file, after, h⟩ | hnone := rootManifest_or_none folder
    · obtain ⟨hfault, hread⟩ := (hroot h).1 herror
      exact ⟨hfault, before, file, after, h, hread⟩
    · rw [complete_of_none hnone] at herror
      cases herror
  · rintro ⟨hfault, before, file, after, h, hread⟩
    exact (hroot h).2 ⟨hfault, hread⟩

theorem RootManifest.exists_of_ok {result : Folder} (h : RootManifest folder before file after)
    (hresult : completePackageManifest folder p versions devVersions = .ok result) :
    ∃ content, result = { folder with files := before ++ { file with content } :: after } := by
  rw [h.complete] at hresult
  cases htext : updated? file.content (slug p.name) versions devVersions with
  | none => simp [htext] at hresult
  | some content =>
    simp only [htext, Except.ok.injEq] at hresult
    exact ⟨content, hresult.symm⟩

theorem RootManifest.complete_twice {document : Json.Document} {fields : List (String × Json)}
    (h : RootManifest folder before file after)
    (hread : (Json.read? file.content).bind Json.Document.ofJson? = some document)
    (hobject : document.value = .object fields)
    (hnumbers : ∀ n ∈ document.value.numbers, n.Survives) :
    ∃ result, completePackageManifest folder p versions devVersions = .ok result ∧
      completePackageManifest result p versions devVersions = .ok result := by
  have htext : updated? file.content (slug p.name) versions devVersions = some _ :=
    updated?_of_object hread hobject
  refine ⟨_, by rw [h.complete, htext], ?_⟩
  rw [(h.withContent _).complete, updated?_updated hread hobject hnumbers htext]

end PackageManifest

open PackageManifest

/-- A package manifest is written in place. Writing fails exactly if the first manifest at the root
is no JSON document, before anything has changed. Otherwise one file changes, or is added at the end
if there was no manifest. Where the manifest is an object whose numbers survive being written and
read, writing it once more changes nothing. -/
theorem manifest_written_in_place (folder : Folder) (p : Project)
    (versions devVersions : Table String) :
    ((∃ fault, completePackageManifest folder p versions devVersions = .error fault) ↔
      ∃ before file after, RootManifest folder before file after ∧
        (Json.read? file.content).bind Json.Document.ofJson? = none) ∧
    (∀ fault, completePackageManifest folder p versions devVersions = .error fault →
      fault = .json ∧
      (completeInPlace p versions devVersions).after folder = (.error fault, folder)) ∧
    (∀ result, completePackageManifest folder p versions devVersions = .ok result →
      (completeInPlace p versions devVersions).after folder = (.ok (), result) ∧
      ((∃ before file after content, RootManifest folder before file after ∧
          result = { folder with files := before ++ { file with content } :: after }) ∨
        (∀ f ∈ folder.files, isManifest f = false) ∧ ∃ content,
          result = { folder with
            files := folder.files ++ [.ofParts "package" "json" content] })) ∧
    ∀ before file after document fields, RootManifest folder before file after →
      (Json.read? file.content).bind Json.Document.ofJson? = some document →
      document.value = .object fields → (∀ n ∈ document.value.numbers, n.Survives) →
      ∃ result, completePackageManifest folder p versions devVersions = .ok result ∧
        completePackageManifest result p versions devVersions = .ok result := by
  refine ⟨⟨?_, ?_⟩, fun fault herror => ?_, fun result hresult => ?_,
    fun before file after document fields h => h.complete_twice⟩
  · rintro ⟨fault, herror⟩
    exact (complete_error_iff.1 herror).2
  · intro hfails
    exact ⟨.json, complete_error_iff.2 ⟨rfl, hfails⟩⟩
  · rw [completeInPlace_after, herror]
    exact ⟨(complete_error_iff.1 herror).1, rfl⟩
  · rw [completeInPlace_after, hresult]
    refine ⟨rfl, ?_⟩
    obtain ⟨before, file, after, h⟩ | hnone := rootManifest_or_none folder
    · obtain ⟨content, heq⟩ := h.exists_of_ok hresult
      exact .inl ⟨before, file, after, content, h, heq⟩
    · rw [complete_of_none hnone] at hresult
      exact .inr ⟨hnone, _, (Except.ok.inj hresult).symm⟩

def portFields : List (String × Json) :=
  [("dependencies", .array []), ("port", .number (.integer 8080))]

def portText : String := "\x7b\"dependencies\": [], \"port\": 8080\x7d"

def portTemplate : Folder where
  name := "kit"
  files := [.ofParts "readme" "md" "A kit.", .ofParts "package" "json" portText,
    .ofParts "package" "json" "another"]

def portShop : Project where
  name := "Port Shop"
  root := { name := "App", node := .text "" }

theorem rootManifest_portTemplate : RootManifest portTemplate [.ofParts "readme" "md" "A kit."]
    (.ofParts "package" "json" portText) [.ofParts "package" "json" "another"] where
  files_eq := rfl
  isManifest := by decide
  isFirst := by decide

def portDocument : Json.Document := .ofJson (.object portFields) rfl

theorem value_portDocument : portDocument.value = .object portFields :=
  Json.canonical_eq_of_ordered _ ⟨List.pairwise_pair.2 (by decide), trivial, trivial, trivial⟩

theorem read_portText : (Json.read? portText).bind Json.Document.ofJson? = some portDocument := by
  have htokens : Json.tokensOf portText.toList =
      some [.openBrace, .string (some "dependencies"), .colon, .openBracket, .closeBracket, .comma,
        .string (some "port"), .colon, .number (some (.integer 8080)), .closeBrace] := by
    decide +kernel
  have hread : Json.read? portText = some (.object portFields) := by
    rw [Json.read?, htokens]
    rfl
  rw [hread]
  rfl

theorem manifest_written_in_place_port :
    (∀ n ∈ portDocument.value.numbers, n.Survives) ∧ ∃ result,
      completePackageManifest portTemplate portShop (.ofList [("react", "16.8.3")]) ∅ =
        .ok result ∧
      completePackageManifest result portShop (.ofList [("react", "16.8.3")]) ∅ = .ok result := by
  have hport : (Json.Number.integer 8080).Survives := by
    rw [Json.Number.Survives]
    decide +kernel
  have hnumbers : ∀ n ∈ portDocument.value.numbers, n.Survives := by
    rw [value_portDocument]
    simpa [portFields, Json.numbers, Json.fieldsNumbers, Json.itemsNumbers] using hport
  obtain ⟨-, -, -, htwice⟩ :=
    manifest_written_in_place portTemplate portShop (.ofList [("react", "16.8.3")]) ∅
  exact ⟨hnumbers, htwice _ _ _ _ portFields rootManifest_portTemplate read_portText
    value_portDocument hnumbers⟩

end Sitewright
