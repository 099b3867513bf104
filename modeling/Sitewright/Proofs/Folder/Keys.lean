import Sitewright.Proofs.Folder.Contents

/-!
# Keys of a tree of folders

All files of a tree, each with the path of its folder. Putting files into the folder at a path adds
their keys to those of the tree, and leaves all files under other keys as they are and in their
order.
-/

namespace Sitewright.Folder

def under (name : String) (files : List (List String × File)) : List (List String × File) :=
  files.map fun e => (name :: e.1, e.2)

mutual
/-- All files with the paths of their folders, the files of a folder before those of its
sub-folders. -/
def located : Folder → List (List String × File)
  | ⟨_, files, folders⟩ => files.map ([], ·) ++ locatedAll folders

def locatedAll : List Folder → List (List String × File)
  | [] => []
  | f :: rest => under f.name f.located ++ locatedAll rest
end

/-- The path of the folder of a file, its name and its extension. -/
abbrev Key := List String × String × Option String

def keys (f : Folder) : List Key := f.located.map fun e => (e.1, e.2.key)

def isAmong (path : List String) (ks : List (String × Option String))
    (e : List String × File) : Bool :=
  e.1 = path && ks.contains e.2.key

/-- The files of a tree that have none of some keys in the folder at a path. -/
def elsewhere (path : List String) (ks : List (String × Option String)) (f : Folder) :
    List (List String × File) :=
  f.located.filter (!isAmong path ks ·)

variable {f : Folder} {path : List String} {files placed : List File} {folders : List Folder}
  {file : File} {step : String} {k : Key} {change : Folder → Folder}
  {ks : List (String × Option String)}

theorem located_eq (f : Folder) :
    f.located = f.files.map ([], ·) ++ f.folders.flatMap fun g => under g.name g.located := by
  have hall (folders : List Folder) :
      locatedAll folders = folders.flatMap fun g => under g.name g.located := by
    induction folders with
    | nil => rfl
    | cons g rest ih => rw [locatedAll, ih, List.flatMap_cons]
  cases f
  rw [located, hall]

theorem located_new (name : String) : ({ name } : Folder).located = [] := located_eq { name }

/-- What is listed of each sub-folder stays if it stays for the folder that is changed, and if
nothing is listed of a folder that is made. -/
theorem flatMap_changeNamed {α : Type} {list : Folder → List α}
    (hnew : list (change { name := step }) = [])
    (hold : ∀ g : Folder, g.name = step → list (change g) = list g) (folders : List Folder) :
    (changeNamed step change folders).flatMap list = folders.flatMap list := by
  induction folders with
  | nil => simp [changeNamed, hnew]
  | cons g rest ih =>
    rw [changeNamed]
    split
    · next hname => rw [List.flatMap_cons, List.flatMap_cons, hold g hname]
    · rw [List.flatMap_cons, List.flatMap_cons, ih]

/-! ## Files under other keys -/

theorem filter_placeFile (h : file.key ∈ ks) :
    (placeFile file placed).filter (!ks.contains ·.key) = placed.filter (!ks.contains ·.key) := by
  induction placed with
  | nil => simp [placeFile, h]
  | cons g placed ih =>
    rw [placeFile]
    split
    · next hkey =>
      have hg : g.key ∈ ks := sameKey_iff.1 hkey ▸ h
      simp [h, hg]
    · rw [List.filter_cons, List.filter_cons, ih]

theorem filter_place (f : Folder) (h : ∀ file ∈ files, file.key ∈ ks) :
    (f.place files).files.filter (!ks.contains ·.key) = f.files.filter (!ks.contains ·.key) := by
  rw [place]
  generalize f.files = placed
  induction files generalizing placed with
  | nil => rfl
  | cons file files ih =>
    obtain ⟨hfile, hfiles⟩ := List.forall_mem_cons.1 h
    rw [List.foldl_cons, ih hfiles, filter_placeFile hfile]

theorem elsewhere_nil (ks : List (String × Option String)) (f : Folder) :
    elsewhere [] ks f = (f.files.filter (!ks.contains ·.key)).map ([], ·) ++
      f.folders.flatMap fun g => under g.name g.located := by
  rw [elsewhere, located_eq, List.filter_append, List.filter_map]
  refine congrArg₂ (· ++ ·) (congrArg _ (List.filter_congr fun file _ => ?_))
    (List.filter_eq_self.2 fun e he => ?_)
  · simp [isAmong]
  · obtain ⟨g, -, he⟩ := List.mem_flatMap.1 he
    obtain ⟨e, -, rfl⟩ := List.mem_map.1 he
    simp [isAmong]

theorem elsewhere_cons (step : String) (path : List String) (ks : List (String × Option String))
    (f : Folder) : elsewhere (step :: path) ks f = f.files.map ([], ·) ++
      f.folders.flatMap fun g =>
        under g.name (if g.name = step then elsewhere path ks g else g.located) := by
  rw [elsewhere, located_eq, List.filter_append, List.filter_flatMap]
  refine congrArg₂ (· ++ ·) (List.filter_eq_self.2 fun e he => ?_)
    (List.flatMap_congr fun g _ => ?_)
  · obtain ⟨file, -, rfl⟩ := List.mem_map.1 he
    simp [isAmong]
  · rw [under, under, List.filter_map]
    congr 1
    split
    · next hname => exact List.filter_congr fun e _ => by simp [isAmong, hname]
    · next hname => exact List.filter_eq_self.2 fun e _ => by simp [isAmong, hname]

/-- Files under other keys stay as they are, and in their order. -/
theorem elsewhere_inject (f : Folder) (path : List String)
    (h : ∀ file ∈ files, file.key ∈ ks) :
    elsewhere path ks (f.inject path files) = elsewhere path ks f := by
  induction path generalizing f with
  | nil =>
    have hfiles := filter_place f h
    rw [elsewhere_nil, elsewhere_nil, ← hfiles]
    rfl
  | cons step path ih =>
    rw [elsewhere_cons, elsewhere_cons, inject_cons]
    refine congrArg _ (flatMap_changeNamed ?_ (fun g hname => ?_) f.folders)
    · rw [name_inject, if_pos rfl, ih, elsewhere, located_new]
      rfl
    · rw [name_inject, if_pos hname, if_pos hname, ih]

/-! ## Keys -/

theorem keys_eq (f : Folder) : f.keys = f.files.map (fun file => ([], file.key)) ++
    f.folders.flatMap fun g => g.keys.map fun k => (g.name :: k.1, k.2) := by
  rw [keys, located_eq, List.map_append, List.map_map, List.map_flatMap]
  refine congrArg _ (List.flatMap_congr fun g _ => ?_)
  rw [under, List.map_map, keys, List.map_map]
  rfl

theorem mem_keys_nil_iff {own : String × Option String} :
    ([], own) ∈ f.keys ↔ own ∈ f.files.map File.key := by
  rw [keys_eq]
  simp

theorem mem_keys_cons_iff {name : String} {own : String × Option String} :
    (name :: path, own) ∈ f.keys ↔ ∃ g ∈ f.folders, g.name = name ∧ (path, own) ∈ g.keys := by
  rw [keys_eq, List.mem_append, or_iff_right (by simp), List.mem_flatMap]
  refine exists_congr fun g => and_congr_right fun _ => List.mem_map.trans ?_
  constructor
  · rintro ⟨k, hk, hkey⟩
    obtain ⟨⟨hname, hpath⟩, hown⟩ : (g.name = name ∧ k.1 = path) ∧ k.2 = own := by simpa using hkey
    exact ⟨hname, hpath ▸ hown ▸ hk⟩
  · rintro ⟨rfl, hk⟩
    exact ⟨_, hk, rfl⟩

theorem mem_keys_place (f : Folder) (files : List File) {own : String × Option String} :
    own ∈ (f.place files).files.map File.key ↔
      own ∈ f.files.map File.key ∨ own ∈ files.map File.key := by
  rw [place]
  generalize f.files = placed
  induction files generalizing placed with
  | nil => simp
  | cons file files ih =>
    have hstep : own ∈ (placeFile file placed).map File.key ↔
        own ∈ placed.map File.key ∨ own = file.key := by
      rw [map_key_placeFile]
      split
      · next hmem => exact ⟨.inl, fun h => h.elim id (· ▸ hmem)⟩
      · simp
    rw [List.foldl_cons, ih, hstep, List.map_cons, List.mem_cons, or_assoc]

/-- A folder that is changed has what it had before or what is added, and one that is made has what
is added. -/
theorem exists_changeNamed_iff {p : Folder → Prop} {q : Prop}
    (hnew : p (change { name := step }) ↔ q)
    (hold : ∀ g : Folder, g.name = step → (p (change g) ↔ p g ∨ q)) (folders : List Folder) :
    (∃ g ∈ changeNamed step change folders, p g) ↔ (∃ g ∈ folders, p g) ∨ q := by
  induction folders with
  | nil => simp [changeNamed, hnew]
  | cons g rest ih =>
    rw [changeNamed]
    split
    · next hname =>
      rw [List.exists_mem_cons_iff, List.exists_mem_cons_iff, hold g hname, or_right_comm]
    · rw [List.exists_mem_cons_iff, List.exists_mem_cons_iff, ih, or_assoc]

/-- The keys of files that are put into the folder at a path come to those of the tree. -/
theorem mem_keys_inject (f : Folder) (path : List String) (files : List File) :
    k ∈ (f.inject path files).keys ↔ k ∈ f.keys ∨ k.1 = path ∧ k.2 ∈ files.map File.key := by
  obtain ⟨place, own⟩ := k
  induction path generalizing f place with
  | nil =>
    cases place with
    | nil =>
      rw [mem_keys_nil_iff, mem_keys_nil_iff, eq_self, true_and]
      exact mem_keys_place f files
    | cons name place =>
      rw [mem_keys_cons_iff, mem_keys_cons_iff]
      exact (or_iff_left fun h => List.cons_ne_nil _ _ h.1).symm
  | cons step path ih =>
    cases place with
    | nil =>
      rw [mem_keys_nil_iff, mem_keys_nil_iff]
      exact (or_iff_left fun h => List.cons_ne_nil _ _ h.1.symm).symm
    | cons name place =>
      rw [mem_keys_cons_iff, mem_keys_cons_iff, inject_cons, List.cons.injEq, and_assoc,
        @eq_comm _ name]
      refine exists_changeNamed_iff ?_ (fun g hname => ?_) f.folders
      · rw [name_inject, ih, keys, located_new]
        simp
      · rw [name_inject, ih, hname, and_or_left]

end Sitewright.Folder
