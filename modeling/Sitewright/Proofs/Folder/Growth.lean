import Sitewright.Proofs.Folder.Lookup

/-!
# Folders that grow

Files are replaced in their places, and new files and folders come behind those that are there.
Putting files into a folder therefore keeps the order of all that it holds, at every depth.
-/

namespace Sitewright

/-- What a file is told apart by within its folder. -/
def File.key (f : File) : String × Option String := (f.name, f.extension)

namespace Folder

mutual
/-- A folder that has everything of an earlier one where it was: first files with the keys of its
files, and first its folders, which may have grown themselves. -/
inductive Grown : Folder → Folder → Prop
  | intro {f g : Folder} (name : f.name = g.name)
      (files : f.files.map File.key <+: g.files.map File.key)
      (folders : AllGrown f.folders g.folders) : Grown f g

inductive AllGrown : List Folder → List Folder → Prop
  | nil (added : List Folder) : AllGrown [] added
  | cons {f g : Folder} {rest later : List Folder} (first : Grown f g)
      (others : AllGrown rest later) : AllGrown (f :: rest) (g :: later)
end

mutual
theorem Grown.refl : ∀ f : Folder, Grown f f
  | ⟨_, _, folders⟩ => .intro rfl List.prefix_rfl (AllGrown.refl folders)

theorem AllGrown.refl : ∀ folders : List Folder, AllGrown folders folders
  | [] => .nil []
  | f :: rest => .cons (Grown.refl f) (AllGrown.refl rest)
end

mutual
theorem Grown.trans : ∀ {f g h : Folder}, Grown f g → Grown g h → Grown f h
  | _, _, _, .intro hname hfiles hfolders, .intro hname' hfiles' hfolders' =>
    .intro (hname.trans hname') (hfiles.trans hfiles') (AllGrown.trans hfolders hfolders')

theorem AllGrown.trans : ∀ {folders later last : List Folder}, AllGrown folders later →
    AllGrown later last → AllGrown folders last
  | _, _, _, .nil _, _ => .nil _
  | _, _, _, .cons hfirst hothers, .cons hfirst' hothers' =>
    .cons (Grown.trans hfirst hfirst') (AllGrown.trans hothers hothers')
end

variable {files : List File} {folders : List Folder} {name : String} {change : Folder → Folder}

theorem keys_placeFile (file : File) (files : List File) :
    files.map File.key <+: (placeFile file files).map File.key := by
  induction files with
  | nil => exact List.nil_prefix
  | cons f rest ih =>
    rw [placeFile]
    split
    · next hkey =>
      have heq : f.key = file.key := by
        simp only [File.sameKey, Bool.and_eq_true, decide_eq_true_eq] at hkey
        rw [File.key, File.key, hkey.1, hkey.2]
      have hmap : (f :: rest).map File.key = (file :: rest).map File.key := by
        rw [List.map_cons, List.map_cons, heq]
      exact hmap ▸ List.prefix_rfl
    · rw [List.map_cons, List.map_cons]
      exact List.cons_prefix_cons.2 ⟨rfl, ih⟩

theorem grown_place (f : Folder) (files : List File) : Grown f (f.place files) := by
  refine .intro rfl ?_ (AllGrown.refl _)
  change f.files.map File.key <+:
    (files.foldl (fun placed file => placeFile file placed) f.files).map File.key
  generalize f.files = placed
  induction files generalizing placed with
  | nil => exact List.prefix_rfl
  | cons file files ih => exact (keys_placeFile file placed).trans (ih (placeFile file placed))

theorem allGrown_changeNamed (name : String) (hchange : ∀ f, Grown f (change f))
    (folders : List Folder) : AllGrown folders (changeNamed name change folders) := by
  induction folders with
  | nil => exact .nil _
  | cons f rest ih =>
    rw [changeNamed]
    split
    · exact .cons (hchange f) (AllGrown.refl rest)
    · exact .cons (Grown.refl f) ih

theorem grown_inject (f : Folder) (path : List String) (files : List File) :
    Grown f (f.inject path files) := by
  induction path generalizing f with
  | nil => exact grown_place f files
  | cons step path ih =>
    exact .intro rfl List.prefix_rfl (allGrown_changeNamed step (fun g => ih g) f.folders)

end Folder

end Sitewright
