import Sitewright.Folder

/-!
# Look-ups in folders

A file is found by the path of its folder, its name and its extension. Putting files into the folder
at a path changes the look-ups of these files only, and the last one put under a key is found.
-/

namespace Sitewright

def File.isAt (f : File) (name : String) (extension : Option String) : Bool :=
  f.name = name && f.extension = extension

def lastFile? (files : List File) (name : String) (extension : Option String) : Option File :=
  files.reverse.find? (·.isAt name extension)

namespace Folder

def at? (f : Folder) (path : List String) (name : String) (extension : Option String) :
    Option File :=
  (f.find? path).bind fun folder => folder.files.find? (·.isAt name extension)

variable {path other : List String} {files : List File} {name step : String}
  {extension : Option String} {file : File} {folders : List Folder} {change : Folder → Folder}

theorem isAt_iff {f : File} :
    f.isAt name extension = true ↔ f.name = name ∧ f.extension = extension := by
  simp [File.isAt]

theorem sameKey_eq_isAt (h : file.isAt name extension = true) (f : File) :
    f.sameKey file = f.isAt name extension := by
  rw [isAt_iff] at h
  rw [File.sameKey, File.isAt, h.1, h.2]

theorem mem_of_lastFile? (h : lastFile? files name extension = some file) :
    file ∈ files ∧ file.isAt name extension = true := by
  rw [lastFile?] at h
  have hat := List.find?_some h
  exact ⟨List.mem_reverse.1 (List.mem_of_find?_eq_some h), hat⟩

theorem find?_placeFile : (placeFile file files).find? (·.isAt name extension) =
    if file.isAt name extension then some file else files.find? (·.isAt name extension) := by
  induction files with
  | nil =>
    rw [placeFile, List.find?_cons]
    cases file.isAt name extension with
    | true => rfl
    | false => rfl
  | cons f rest ih =>
    rw [placeFile]
    by_cases hkey : f.sameKey file = true
    · have hat : f.isAt name extension = file.isAt name extension := by
        simp only [File.sameKey, Bool.and_eq_true, decide_eq_true_eq] at hkey
        rw [File.isAt, File.isAt, hkey.1, hkey.2]
      rw [if_pos hkey, List.find?_cons, List.find?_cons, hat]
      cases file.isAt name extension with
      | true => rfl
      | false => rfl
    · rw [if_neg hkey, List.find?_cons, List.find?_cons, ih]
      cases hat : f.isAt name extension with
      | true =>
        have hne : file.isAt name extension ≠ true := fun h => hkey (sameKey_eq_isAt h f ▸ hat)
        simp [hne]
      | false => rfl

theorem placeFile_of_find?_eq_none (hfile : file.isAt name extension = true)
    (h : files.find? (·.isAt name extension) = none) : placeFile file files = files ++ [file] := by
  induction files with
  | nil => rfl
  | cons f files ih =>
    rw [List.find?_cons] at h
    cases hat : f.isAt name extension with
    | true => simp [hat] at h
    | false =>
      rw [hat] at h
      rw [placeFile, sameKey_eq_isAt hfile, hat, if_neg Bool.false_ne_true, ih h]
      rfl

/-- Changing the first file under a key puts the changed file in its place. -/
theorem changeFile?_eq_placeFile {f : File} {edit : File → File}
    (h : files.find? (·.isAt name extension) = some f) (hfile : edit f = file)
    (hat : file.isAt name extension = true) :
    changeFile? (·.isAt name extension) edit files = some (placeFile file files) := by
  induction files with
  | nil => cases h
  | cons g files ih =>
    rw [List.find?_cons] at h
    rw [changeFile?, placeFile, sameKey_eq_isAt hat]
    cases hg : g.isAt name extension with
    | true =>
      rw [hg] at h
      obtain rfl : g = f := Option.some.inj h
      simp [hfile]
    | false =>
      rw [hg] at h
      simp [ih h]

theorem find?_place (f : Folder) (files : List File) :
    (f.place files).files.find? (·.isAt name extension) =
      (lastFile? files name extension).or (f.files.find? (·.isAt name extension)) := by
  rw [place, lastFile?]
  generalize f.files = placed
  induction files generalizing placed with
  | nil => rfl
  | cons file files ih =>
    rw [List.foldl_cons, ih, find?_placeFile, List.reverse_cons, List.find?_append,
      Option.or_assoc]
    congr 1
    rw [List.find?_cons]
    cases file.isAt name extension with
    | true => rfl
    | false => rfl

theorem find?_changeNamed_self (hname : ∀ f, (change f).name = f.name) :
    (changeNamed step change folders).find? (·.name = step) =
      some (change ((folders.find? (·.name = step)).getD { name := step })) := by
  induction folders with
  | nil => simp [changeNamed, hname]
  | cons f rest ih =>
    rw [changeNamed]
    by_cases hf : f.name = step
    · simp [hf, hname]
    · simp [hf, ih]

theorem find?_changeNamed_of_ne (hname : ∀ f, (change f).name = f.name) (hne : step ≠ name) :
    (changeNamed step change folders).find? (·.name = name) =
      folders.find? (·.name = name) := by
  induction folders with
  | nil => simp [changeNamed, hname, hne]
  | cons f rest ih =>
    rw [changeNamed]
    by_cases hf : f.name = step
    · simp [hf, hname, hne]
    · rw [if_neg hf, List.find?_cons, List.find?_cons, ih]

theorem name_inject (f : Folder) : (f.inject path files).name = f.name := by
  cases path <;> rfl

theorem at?_cons (f : Folder) : f.at? (step :: path) name extension =
    (f.folders.find? (·.name = step)).bind fun folder => folder.at? path name extension := by
  rw [at?, find?, Option.bind_assoc]
  rfl

theorem at?_new : ({ name := step } : Folder).at? path name extension = none := by
  cases path with
  | nil => rfl
  | cons step path => rfl

theorem at?_getD (found : Option Folder) :
    (found.getD { name := step }).at? path name extension =
      found.bind fun folder => folder.at? path name extension := by
  cases found with
  | none => exact at?_new
  | some folder => rfl

/-- What a look-up finds after files are put into the folder at a path. -/
theorem at?_inject (f : Folder) (path : List String) (files : List File) (other : List String)
    (name : String) (extension : Option String) :
    (f.inject path files).at? other name extension =
      if path = other then (lastFile? files name extension).or (f.at? other name extension)
      else f.at? other name extension := by
  induction path generalizing f other with
  | nil =>
    cases other with
    | nil => exact find?_place f files
    | cons step other => rw [if_neg (List.cons_ne_nil step other).symm]; rfl
  | cons step path ih =>
    have hname : ∀ f : Folder, (f.inject path files).name = f.name := fun f => name_inject f
    cases other with
    | nil => rw [if_neg (List.cons_ne_nil step path)]; rfl
    | cons next other =>
      rw [at?_cons, at?_cons]
      change ((changeNamed step (·.inject path files) f.folders).find? (·.name = next)).bind _ = _
      by_cases hstep : step = next
      · subst hstep
        rw [find?_changeNamed_self hname, Option.bind_some, ih, at?_getD]
        simp only [List.cons.injEq, true_and]
      · rw [find?_changeNamed_of_ne hname hstep, if_neg fun h => hstep (List.cons.inj h).1]

end Folder

end Sitewright
