import Sitewright.Proofs.Generator.Files
import Sitewright.Proofs.Project.Runs

/-!
# Places of deliveries

Each section delivers to the places that the strategy and the project give it: the files of a
delivery all have the name of its place, and differ in their extensions.
-/

namespace Sitewright

open Outcome

/-- A delivery of files with one name to one folder. -/
structure Delivery.IsTo (d : Delivery) (place : Placement) : Prop where
  path : d.path = place.folder
  apart : Apart place.fileName d.files

/-- Every delivery goes to one of some places. -/
def Within (deliveries : List Delivery) (places : List Placement) : Prop :=
  ∀ d ∈ deliveries, ∃ place ∈ places, d.IsTo place

theorem Within.append {earlier later : List Delivery} {places placesLater : List Placement}
    (h : Within earlier places) (hlater : Within later placesLater) :
    Within (earlier ++ later) (places ++ placesLater) := by
  intro d hd
  rcases List.mem_append.1 hd with hd | hd
  · obtain ⟨place, hplace, hto⟩ := h d hd
    exact ⟨place, List.mem_append_left _ hplace, hto⟩
  · obtain ⟨place, hplace, hto⟩ := hlater d hd
    exact ⟨place, List.mem_append_right _ hplace, hto⟩

theorem within_of_mapM {α : Type} {deliver : α → Outcome Delivery} {items : List α}
    {deliveries : List Delivery} (h : items.mapM deliver = .ok deliveries) (place : α → Placement)
    (hto : ∀ a d, deliver a = .ok d → d.IsTo (place a)) : Within deliveries (items.map place) := by
  intro d hd
  obtain ⟨a, ha, hdeliver⟩ := (mem_of_mapM_ok h).1 hd
  exact ⟨place a, List.mem_map_of_mem ha, hto a d hdeliver⟩

theorem Placement.ext {place other : Placement} (hfolder : place.folder = other.folder)
    (hname : place.fileName = other.fileName) : place = other := by
  cases place
  cases other
  cases hfolder
  cases hname
  rfl

/-- Deliveries to other places bring no file of a place. -/
theorem Within.not_delivers {deliveries : List Delivery} {places : List Placement}
    (h : Within deliveries places) {place : Placement} (hplace : place ∉ places)
    (extension : Option String) :
    ¬ Delivers deliveries place.folder place.fileName extension := by
  rintro ⟨d, hd, hpath, f, hf, hat⟩
  obtain ⟨other, hother, hto⟩ := h d hd
  have hname : other.fileName = place.fileName :=
    (hto.apart f hf).1.symm.trans (Folder.isAt_iff.1 hat).1
  exact hplace (Placement.ext (hto.path.symm.trans hpath) hname ▸ hother)

theorem Within.lastDelivered?_eq_none {deliveries : List Delivery} {places : List Placement}
    (h : Within deliveries places) {place : Placement} (hplace : place ∉ places)
    (extension : Option String) :
    lastDelivered? deliveries place.folder place.fileName extension = none :=
  Sitewright.lastDelivered?_eq_none (h.not_delivers hplace extension)

/-- If the places of the items of a section differ, every file that is delivered for one of them is
the last one under its key. -/
theorem lastDelivered?_of_mapM {α : Type} {deliver : α → Outcome Delivery} {items : List α}
    {deliveries : List Delivery} (h : items.mapM deliver = .ok deliveries) {place : α → Placement}
    (hto : ∀ a d, deliver a = .ok d → d.IsTo (place a)) (hplaces : (items.map place).Nodup)
    {a : α} {d : Delivery} (ha : a ∈ items) (hd : deliver a = .ok d) {f : File} (hf : f ∈ d.files) :
    lastDelivered? deliveries (place a).folder f.name f.extension = some f := by
  induction mapM_ok_iff.1 h with
  | nil => cases ha
  | @cons b e items deliveries hb hrest ih =>
    obtain ⟨hnot, hplaces⟩ := List.nodup_cons.1 hplaces
    have hrest := mapM_ok_iff.2 hrest
    have hfile := ((hto a d hd).apart f hf).1
    rw [lastDelivered?]
    rcases List.mem_cons.1 ha with rfl | ha
    · obtain rfl : d = e := Except.ok.inj (hd.symm.trans hb)
      have hlater := (within_of_mapM hrest place hto).lastDelivered?_eq_none hnot f.extension
      rw [hfile, hlater, if_pos (hto a d hd).path, ← hfile, (hto a d hd).apart.lastFile? hf]
      rfl
    · rw [ih hrest hplaces ha]
      rfl

namespace Strategy

variable {s : Strategy} {p : Project} {template result : Folder} {mapping : Option Mapping}
  {d : Delivery} {o : Output}

theorem deliver_isTo {part : ComponentSection} {c : Component}
    (h : s.deliver p mapping part c = .ok d) : d.IsTo (part.placement c) := by
  obtain ⟨compiled, hcompiled, rfl⟩ := deliver_ok_iff.1 h
  exact ⟨rfl, Generator.apart_generate hcompiled⟩

theorem deliverRouter_isTo {router : RouterSection} (h : s.deliverRouter p mapping router = .ok d) :
    d.IsTo ⟨router.path, router.fileName⟩ := by
  rw [deliverRouter, map_ok_iff] at h
  obtain ⟨compiled, hcompiled, rfl⟩ := h
  exact ⟨rfl, Generator.apart_generate hcompiled⟩

theorem deliverEntry_isTo {entry : EntrySection} (h : s.deliverEntry p entry = .ok d) :
    d.IsTo ⟨entry.path, entry.fileName⟩ := by
  rw [deliverEntry, map_ok_iff] at h
  obtain ⟨files, hfiles, rfl⟩ := h
  exact ⟨rfl, Generator.apart_linkFiles hfiles⟩

theorem deliverStyleSheet_isTo {sheet : StyleSheetSection}
    (h : s.deliverStyleSheet p mapping sheet = .ok d) : d.IsTo ⟨sheet.path, sheet.fileName⟩ := by
  rw [deliverStyleSheet, map_ok_iff] at h
  obtain ⟨compiled, hcompiled, rfl⟩ := h
  exact ⟨rfl, Generator.apart_generate hcompiled⟩

theorem deliverFrameworkFile_isTo {file : FrameworkFile}
    (h : s.deliverFrameworkFile p o file = .ok d) : d.IsTo ⟨file.path, file.fileName⟩ := by
  obtain ⟨content, -, h⟩ := bind_ok_iff.1 h
  obtain ⟨files, hfiles, h⟩ := bind_ok_iff.1 h
  cases h
  exact ⟨rfl, Generator.apart_linkFiles hfiles⟩

theorem deliverReplacement_isTo {file : FrameworkFile}
    (h : s.deliverReplacement p o file = .ok d) : d.IsTo ⟨file.path, file.fileName⟩ := by
  rw [deliverReplacement] at h
  split at h
  · exact deliverFrameworkFile_isTo h
  · cases h

theorem deliverWebManifest_isTo (h : s.deliverWebManifest? p = some d) :
    d.IsTo ⟨s.statics.path, "manifest"⟩ := by
  obtain ⟨file, hfile, rfl⟩ := Option.map_eq_some_iff.1 h
  obtain ⟨manifest, -, rfl⟩ := Option.map_eq_some_iff.1 hfile
  refine ⟨rfl, fun f hf => ?_⟩
  rw [List.mem_singleton.1 hf]
  exact ⟨rfl, fun g hg _ => (List.mem_singleton.1 hg).symm⟩

def placesAfterComponents (s : Strategy) (p : Project) : List Placement :=
  (p.pages.map (·.component)).map s.pages.placement ++
    s.router.toList.map (fun router => ⟨router.path, router.fileName⟩) ++
    s.entry.toList.map (fun entry => ⟨entry.path, entry.fileName⟩) ++
    s.styleSheet.toList.map (fun sheet => ⟨sheet.path, sheet.fileName⟩) ++
    s.framework.config.toList.map (fun file => ⟨file.path, file.fileName⟩) ++
    s.framework.replacement.toList.map (fun file => ⟨file.path, file.fileName⟩) ++
    p.globals.manifest.toList.map (fun _ => ⟨s.statics.path, "manifest"⟩) ++ [⟨[], "package"⟩]

theorem Run.within_afterComponents (run : s.Run p template mapping result) :
    Within run.afterComponents (s.placesAfterComponents p) := by
  have hweb : Within (s.deliverWebManifest? p).toList
      (p.globals.manifest.toList.map fun _ => ⟨s.statics.path, "manifest"⟩) := by
    intro d hd
    rw [Option.mem_toList] at hd
    refine ⟨⟨s.statics.path, "manifest"⟩, ?_, deliverWebManifest_isTo hd⟩
    cases hmanifest : p.globals.manifest with
    | none => simp [deliverWebManifest?, webManifestFile?, hmanifest] at hd
    | some manifest => simp
  have hpackage : Within [{ path := [], files := [run.manifest] }] [⟨[], "package"⟩] := by
    intro d hd
    obtain rfl := List.mem_singleton.1 hd
    refine ⟨_, List.mem_singleton_self _, rfl, fun f hf => ?_⟩
    obtain rfl := List.mem_singleton.1 hf
    exact ⟨(Folder.isAt_iff.1 run.isAt_manifest).1, fun g hg _ => (List.mem_singleton.1 hg).symm⟩
  have hpages := within_of_mapM run.mapM_pages _ fun _ _ => deliver_isTo
  have hrouter := within_of_mapM run.mapM_router _ fun _ _ => deliverRouter_isTo
  have hentry := within_of_mapM run.mapM_entry _ fun _ _ => deliverEntry_isTo
  have hsheet := within_of_mapM run.mapM_styleSheet _ fun _ _ => deliverStyleSheet_isTo
  have hconfig := within_of_mapM run.mapM_config _ fun _ _ => deliverFrameworkFile_isTo
  have hreplacement := within_of_mapM run.mapM_replacement _ fun _ _ => deliverReplacement_isTo
  exact ((((((hpages.append hrouter).append hentry).append hsheet).append hconfig).append
    hreplacement).append hweb).append hpackage

def Run.after (run : s.Run p template mapping result) (i : Nat) : List Delivery :=
  run.components.drop (i + 1) ++ run.afterComponents

def placesAfter (s : Strategy) (p : Project) (i : Nat) : List Placement :=
  (p.components.values.drop (i + 1)).map s.components.placement ++ s.placesAfterComponents p

theorem Run.within_after (run : s.Run p template mapping result) (i : Nat) :
    Within (run.after i) (s.placesAfter p i) := by
  have hdrop : (p.components.values.drop (i + 1)).mapM (s.deliver p mapping s.components) =
      .ok (run.components.drop (i + 1)) :=
    mapM_ok_iff.2 (List.forall₂_drop (i + 1) (mapM_ok_iff.1 run.mapM_components))
  exact (within_of_mapM hdrop _ fun _ _ => deliver_isTo).append run.within_afterComponents

end Strategy

end Sitewright
