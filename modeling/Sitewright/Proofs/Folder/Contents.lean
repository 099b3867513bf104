import Mathlib.Data.List.Nodup
import Sitewright.Proofs.Folder.Growth

/-!
# Contents of folders

A tree of folders stands for a map from the path of a folder, a name and an extension to a file, the
first match counting at each level. Putting files into the folder at a path makes the folders on the
way and changes the map at this path only. Where the names of sub-folders and the keys of files are
distinct at every level, they stay so. Whether or not they are, the listing of a tree goes through
all its places once, in the order of their addresses.
-/

namespace Sitewright.Folder

variable {f : Folder} {path other : List String} {files : List File} {folders : List Folder}
  {name step : String} {change : Folder → Folder}

/-! ## Folders on the way -/

theorem find?_cons (f : Folder) (step : String) (path : List String) :
    f.find? (step :: path) = (f.folders.find? (·.name = step)).bind (find? path) := rfl

theorem inject_cons (f : Folder) (step : String) (path : List String) (files : List File) :
    f.inject (step :: path) files =
      { f with folders := changeNamed step (·.inject path files) f.folders } := rfl

theorem find?_new (h : path ≠ []) : ({ name := step } : Folder).find? path = none := by
  cases path with
  | nil => exact absurd rfl h
  | cons step path => rfl

/-- The folders of a path are made, and no others. -/
theorem isSome_find?_inject (f : Folder) (path : List String) (files : List File)
    (other : List String) : ((f.inject path files).find? other).isSome ↔
      (f.find? other).isSome ∨ other <+: path := by
  induction path generalizing f other with
  | nil =>
    cases other with
    | nil => exact iff_of_true rfl (.inl rfl)
    | cons step other =>
      have hnot : ¬ step :: other <+: [] := by simp
      exact (or_iff_left hnot).symm
  | cons step path ih =>
    have hname : ∀ f : Folder, (f.inject path files).name = f.name := fun f => name_inject f
    cases other with
    | nil => exact iff_of_true rfl (.inl rfl)
    | cons next other =>
      rw [inject_cons, find?_cons, find?_cons]
      by_cases hstep : step = next
      · subst hstep
        rw [find?_changeNamed_self hname, Option.bind_some, ih, List.cons_prefix_cons]
        cases hfound : f.folders.find? (·.name = step) with
        | some folder => simp
        | none =>
          by_cases hother : other = []
          · simp [hother, find?]
          · simp [find?_new hother]
      · have hnot : ¬ next :: other <+: step :: path := fun h =>
          hstep (List.cons_prefix_cons.1 h).1.symm
        rw [find?_changeNamed_of_ne hname hstep, or_iff_left hnot]

/-! ## Distinct names -/

/-- At every level the sub-folders have distinct names and the files distinct keys. -/
inductive Distinct : Folder → Prop
  | intro {f : Folder} (keys : (f.files.map File.key).Nodup)
      (names : (f.folders.map Folder.name).Nodup) (below : ∀ g ∈ f.folders, Distinct g) : Distinct f

theorem Distinct.keys (h : f.Distinct) : (f.files.map File.key).Nodup := by
  cases h with
  | intro keys _ _ => exact keys

theorem Distinct.names (h : f.Distinct) : (f.folders.map Folder.name).Nodup := by
  cases h with
  | intro _ names _ => exact names

theorem Distinct.of_mem (h : f.Distinct) {g : Folder} (hg : g ∈ f.folders) : g.Distinct := by
  cases h with
  | intro _ _ below => exact below g hg

theorem distinct_new (name : String) : ({ name } : Folder).Distinct :=
  .intro List.nodup_nil List.nodup_nil nofun

theorem nodup_addNew {α : Type} [BEq α] [LawfulBEq α] {l : List α} (h : l.Nodup) (a : α) :
    (if a ∈ l then l else l ++ [a]).Nodup := by
  split
  · exact h
  · next hnew => exact List.concat_eq_append ▸ h.concat hnew

theorem sameKey_iff {file g : File} : g.sameKey file = true ↔ g.key = file.key := by
  simp [File.sameKey, File.key]

theorem map_key_placeFile (file : File) (files : List File) :
    (placeFile file files).map File.key =
      if file.key ∈ files.map File.key then files.map File.key
      else files.map File.key ++ [file.key] := by
  induction files with
  | nil => rfl
  | cons g rest ih =>
    rw [placeFile]
    by_cases hkey : g.key = file.key
    · simp [sameKey_iff.2 hkey, hkey]
    · rw [if_neg (sameKey_iff.not.2 hkey), List.map_cons, ih]
      by_cases hmem : file.key ∈ rest.map File.key
      · simp [hmem]
      · simp [hmem, Ne.symm hkey]

theorem nodup_keys_placeFile (h : (files.map File.key).Nodup) (file : File) :
    ((placeFile file files).map File.key).Nodup := by
  rw [map_key_placeFile]
  exact nodup_addNew h file.key

theorem Distinct.place (h : f.Distinct) (files : List File) : (f.place files).Distinct := by
  refine .intro ?_ h.names fun g hg => h.of_mem hg
  have hkeys := h.keys
  change ((files.foldl (fun placed file => placeFile file placed) f.files).map File.key).Nodup
  generalize f.files = placed at hkeys
  induction files generalizing placed with
  | nil => exact hkeys
  | cons file files ih => exact ih (placeFile file placed) (nodup_keys_placeFile hkeys file)

theorem map_name_changeNamed (hname : ∀ f, (change f).name = f.name) :
    (changeNamed step change folders).map Folder.name =
      if step ∈ folders.map Folder.name then folders.map Folder.name
      else folders.map Folder.name ++ [step] := by
  induction folders with
  | nil => simp [changeNamed, hname]
  | cons g rest ih =>
    rw [changeNamed]
    by_cases hg : g.name = step
    · simp [hg, hname]
    · rw [if_neg hg, List.map_cons, ih]
      by_cases hmem : step ∈ rest.map Folder.name
      · simp [hmem]
      · simp [hmem, Ne.symm hg]

theorem mem_changeNamed {g : Folder} (h : g ∈ changeNamed step change folders) :
    g ∈ folders ∨ g = change { name := step } ∨ ∃ old ∈ folders, g = change old := by
  induction folders with
  | nil => exact .inr (.inl (List.mem_singleton.1 h))
  | cons old rest ih =>
    rw [changeNamed] at h
    split at h
    · rcases List.mem_cons.1 h with rfl | h
      · exact .inr (.inr ⟨old, List.mem_cons_self, rfl⟩)
      · exact .inl (List.mem_cons_of_mem _ h)
    · rcases List.mem_cons.1 h with rfl | h
      · exact .inl List.mem_cons_self
      · rcases ih h with hmem | hnew | ⟨old', hold', rfl⟩
        · exact .inl (List.mem_cons_of_mem _ hmem)
        · exact .inr (.inl hnew)
        · exact .inr (.inr ⟨old', List.mem_cons_of_mem _ hold', rfl⟩)

theorem Distinct.inject (h : f.Distinct) (path : List String) (files : List File) :
    (f.inject path files).Distinct := by
  induction path generalizing f with
  | nil => exact h.place files
  | cons step path ih =>
    rw [inject_cons]
    refine .intro h.keys ?_ fun g hg => ?_
    · change ((changeNamed step (·.inject path files) f.folders).map Folder.name).Nodup
      rw [map_name_changeNamed fun g => name_inject g]
      exact nodup_addNew h.names step
    · rcases mem_changeNamed hg with hg | rfl | ⟨old, hold, rfl⟩
      · exact h.of_mem hg
      · exact ih (distinct_new step)
      · exact ih (h.of_mem hold)

/-! ## Places -/

/-- The folder at an address, whose steps count sub-folders, and the names on the way to it. -/
def locate? : List Nat → Folder → Option (List String × Folder)
  | [], f => some ([], f)
  | i :: address, f => f.folders[i]?.bind fun g =>
      (locate? address g).map fun found => (g.name :: found.1, found.2)

/-- The path and the file at a place: a number among the files of the folder at an address. -/
def fileAt? (f : Folder) (place : List Nat × Nat) : Option (String × File) :=
  (f.locate? place.1).bind fun found => found.2.files[place.2]?.map fun file =>
    ("/".intercalate (found.1 ++ [file.fullName]), file)

/-- Places in the order of their addresses. An address comes before those that go on from it, so the
files of a folder come before those of its sub-folders. -/
def Precedes (p q : List Nat × Nat) : Prop := p.1 < q.1 ∨ p.1 = q.1 ∧ p.2 < q.2

mutual
def places : Folder → List (List Nat × Nat)
  | ⟨_, files, folders⟩ => (List.range files.length).map ([], ·) ++ placesFrom 0 folders

def placesFrom (i : Nat) : List Folder → List (List Nat × Nat)
  | [] => []
  | f :: rest => f.places.map (fun p => (i :: p.1, p.2)) ++ placesFrom (i + 1) rest
end

theorem places_eq (f : Folder) :
    f.places = (List.range f.files.length).map ([], ·) ++ placesFrom 0 f.folders := by
  cases f
  rw [places]

theorem mem_placesFrom_iff {i : Nat} {p : List Nat × Nat} : p ∈ placesFrom i folders ↔
    ∃ (k : Nat) (g : Folder) (q : List Nat × Nat),
      folders[k]? = some g ∧ q ∈ g.places ∧ p = ((i + k) :: q.1, q.2) := by
  induction folders generalizing i with
  | nil => simp [placesFrom]
  | cons f rest ih =>
    rw [placesFrom, List.mem_append, ih, List.mem_map]
    constructor
    · rintro (⟨q, hq, rfl⟩ | ⟨k, g, q, hg, hq, rfl⟩)
      · exact ⟨0, f, q, rfl, hq, rfl⟩
      · exact ⟨k + 1, g, q, hg, hq, by rw [Nat.add_right_comm, Nat.add_assoc]⟩
    · rintro ⟨k, g, q, hg, hq, rfl⟩
      cases k with
      | zero =>
        obtain rfl := Option.some.inj hg
        exact .inl ⟨q, hq, rfl⟩
      | succ k => exact .inr ⟨k, g, q, hg, hq, by rw [Nat.add_right_comm, Nat.add_assoc]⟩

theorem fileAt?_nil (f : Folder) (j : Nat) :
    f.fileAt? ([], j) = f.files[j]?.map fun file => (file.fullName, file) := by
  simp [fileAt?, locate?, String.intercalate_singleton]

theorem fileAt?_cons (f : Folder) (i : Nat) (address : List Nat) (j : Nat) :
    f.fileAt? (i :: address, j) = f.folders[i]?.bind fun g =>
      (g.fileAt? (address, j)).map fun found => (g.name ++ "/" ++ found.1, found.2) := by
  rw [fileAt?, locate?]
  cases f.folders[i]? with
  | none => rfl
  | some g =>
    cases hg : g.locate? address with
    | none => simp [fileAt?, hg]
    | some found =>
      simp [fileAt?, hg, Function.comp_def, String.intercalate_cons_of_ne_nil]

/-- Every place that holds a file is among the places of the tree. -/
theorem mem_places_iff {p : List Nat × Nat} : p ∈ f.places ↔ (f.fileAt? p).isSome := by
  obtain ⟨address, j⟩ := p
  induction address generalizing f with
  | nil =>
    have hbelow : ([], j) ∉ placesFrom 0 f.folders := by
      rintro hmem
      obtain ⟨k, g, q, -, -, heq⟩ := mem_placesFrom_iff.1 hmem
      cases heq
    simp [places_eq, hbelow, fileAt?_nil]
  | cons i address ih =>
    have hown : (i :: address, j) ∉ (List.range f.files.length).map ([], ·) := by simp
    have hplace : ∀ (k : Nat) (q : List Nat × Nat),
        (i :: address, j) = ((0 + k) :: q.1, q.2) ↔ k = i ∧ q = (address, j) := by
      intro k q
      simp [Prod.ext_iff, eq_comm, and_assoc]
    rw [places_eq, List.mem_append, or_iff_right hown, mem_placesFrom_iff, fileAt?_cons]
    simp only [hplace]
    cases hg : f.folders[i]? with
    | none => simp [hg]
    | some g => simp [hg, ih]

theorem precedes_cons_iff {i : Nat} {p q : List Nat × Nat} :
    Precedes (i :: p.1, p.2) (i :: q.1, q.2) ↔ Precedes p q := by
  simp [Precedes]

mutual
theorem pairwise_places : ∀ f : Folder, f.places.Pairwise Precedes
  | ⟨_, files, folders⟩ => by
    rw [places, List.pairwise_append]
    refine ⟨?_, pairwise_placesFrom 0 folders, ?_⟩
    · rw [List.pairwise_map]
      exact List.pairwise_lt_range.imp fun hlt => .inr ⟨rfl, hlt⟩
    · intro p hp q hq
      obtain ⟨j, -, rfl⟩ := List.mem_map.1 hp
      obtain ⟨k, g, q, -, -, rfl⟩ := mem_placesFrom_iff.1 hq
      exact .inl (by simp)

theorem pairwise_placesFrom (i : Nat) : ∀ folders : List Folder,
    (placesFrom i folders).Pairwise Precedes
  | [] => .nil
  | f :: rest => by
    rw [placesFrom, List.pairwise_append]
    refine ⟨?_, pairwise_placesFrom (i + 1) rest, ?_⟩
    · rw [List.pairwise_map]
      exact (pairwise_places f).imp precedes_cons_iff.2
    · intro p hp q hq
      obtain ⟨p, -, rfl⟩ := List.mem_map.1 hp
      obtain ⟨k, g, q, -, -, rfl⟩ := mem_placesFrom_iff.1 hq
      exact .inl (List.cons_lt_cons_iff.2 (.inl (by omega)))
end

def foundBelow (start : String) (found : String × File) : String × File :=
  (start ++ found.1, found.2)

mutual
theorem map_fileAt?_places (start : String) : ∀ f : Folder,
    f.places.map (fun p => (f.fileAt? p).map (foundBelow start)) =
      (f.filesBelow start).map some
  | ⟨name, files, folders⟩ => by
    rw [places, filesBelow, List.map_append, List.map_append]
    refine congrArg₂ (· ++ ·) ?_ (map_fileAt?_placesFrom start ⟨name, files, folders⟩ [] folders rfl)
    refine List.ext_getElem (by simp) fun j hj _ => ?_
    have hlt : j < files.length := by simpa using hj
    simp [fileAt?_nil, hlt, foundBelow]

theorem map_fileAt?_placesFrom (start : String) (f : Folder) : ∀ (before folders : List Folder),
    f.folders = before ++ folders →
    (placesFrom before.length folders).map (fun p => (f.fileAt? p).map (foundBelow start)) =
      (filesBelowAll start folders).map some
  | _, [], _ => rfl
  | before, g :: rest, h => by
    -- `g` is counted with the folders before it from here on
    have hrest := map_fileAt?_placesFrom start f (before ++ [g]) rest (by simp [h])
    have hfirst := map_fileAt?_places (start ++ g.name ++ "/") g
    rw [List.length_append] at hrest
    rw [placesFrom, filesBelowAll, List.map_append, List.map_append, ← hfirst, ← hrest, List.map_map]
    congr 1
    refine List.map_congr_left fun p _ => ?_
    have hget : f.folders[before.length]? = some g := by simp [h]
    rw [Function.comp_apply, fileAt?_cons, hget, Option.bind_some, Option.map_map]
    refine congrArg (Option.map · _) (funext fun found => ?_)
    simp [foundBelow, String.append_assoc]
end

theorem map_fileAt?_eq_allFiles (f : Folder) : f.places.map f.fileAt? = f.allFiles.map some := by
  have hstart : ∀ found : Option (String × File), found.map (foundBelow "") = found := by
    intro found
    cases found <;> simp [foundBelow]
  rw [allFiles, ← map_fileAt?_places]
  exact List.map_congr_left fun p _ => (hstart (f.fileAt? p)).symm

/-- Putting files into the folder at a path makes this folder, and of the others only those on the
way to it. A look-up there finds the last of the files under its key, or else what was there before,
and look-ups in every other folder find what they found. Distinct names stay distinct. The listing
of a tree has the files at all its places, each place once, in the order of the places. -/
theorem inject_refines (f : Folder) (path : List String) (files : List File) :
    ((f.inject path files).find? path).isSome ∧
    (∀ other, ((f.inject path files).find? other).isSome ↔
      (f.find? other).isSome ∨ other <+: path) ∧
    (∀ name extension, (f.inject path files).at? path name extension =
      (lastFile? files name extension).or (f.at? path name extension)) ∧
    (∀ other name extension, other ≠ path →
      (f.inject path files).at? other name extension = f.at? other name extension) ∧
    (f.Distinct → (f.inject path files).Distinct) ∧
    ∃ places : List (List Nat × Nat), (∀ p, p ∈ places ↔ (f.fileAt? p).isSome) ∧
      places.Pairwise Precedes ∧ places.map f.fileAt? = f.allFiles.map some := by
  refine ⟨?_, f.isSome_find?_inject path files, fun name extension => ?_,
    fun other name extension hother => ?_, fun h => h.inject path files,
    f.places, fun _ => mem_places_iff, pairwise_places f, map_fileAt?_eq_allFiles f⟩
  · exact (f.isSome_find?_inject path files path).2 (.inr List.prefix_rfl)
  · rw [at?_inject, if_pos rfl]
  · rw [at?_inject, if_neg hother.symm]

def sources : Folder where
  name := "app"
  files := [.ofParts "package" "json" "\x7b\x7d"]
  folders := [{ name := "src", files := [.ofParts "index" "js" "start()"] }]

theorem distinct_sources : sources.Distinct := by
  refine .intro (by decide) (by decide) fun g hg => ?_
  obtain rfl := List.mem_singleton.1 hg
  exact .intro (by decide) (by decide) nofun

theorem inject_refines_sources :
    let views := [File.ofParts "home" "js" "v1", .ofParts "home" "css" "c", .ofParts "home" "js" "v2"]
    (sources.inject ["src", "views"] views).at? ["src", "views"] "home" (some "js") =
      some (.ofParts "home" "js" "v2") ∧
    (sources.inject ["src", "views"] views).at? ["src"] "index" (some "js") =
      some (.ofParts "index" "js" "start()") ∧
    (sources.inject ["src", "views"] views).Distinct := by
  intro views
  obtain ⟨-, -, hhere, helsewhere, hdistinct, -⟩ := inject_refines sources ["src", "views"] views
  refine ⟨?_, ?_, hdistinct distinct_sources⟩
  · rw [hhere]
    decide
  · rw [helsewhere _ _ _ (by decide)]
    decide

end Sitewright.Folder
