import Sitewright.Generator.Basic
import Sitewright.Proofs.Folder.Lookup
import Sitewright.Proofs.Outcome
import Sitewright.Proofs.Table

/-!
# Files of a generation

The files of a generation have the name of the component and differ in their extensions.
-/

namespace Sitewright

open Outcome

variable {fileName : String} {first : List String} {outputs : Table String} {f g : File}
  {files : List File}

theorem mem_outputFiles (h : f ∈ outputFiles fileName first outputs) :
    ∃ extension text, outputs.get? extension = some text ∧
      f = File.ofParts fileName extension text := by
  rcases List.mem_append.1 h with h | h
  · obtain ⟨extension, -, h⟩ := List.mem_filterMap.1 h
    obtain ⟨text, htext, rfl⟩ := Option.map_eq_some_iff.1 h
    exact ⟨extension, text, htext, rfl⟩
  · obtain ⟨⟨extension, text⟩, he, rfl⟩ := List.mem_map.1 h
    exact ⟨extension, text, Table.mem_entries_iff.1 (List.mem_of_mem_filter he), rfl⟩

/-- Files that differ in their extensions only. -/
def Apart (fileName : String) (files : List File) : Prop :=
  ∀ f ∈ files, f.name = fileName ∧ ∀ g ∈ files, f.extension = g.extension → f = g

theorem apart_outputFiles : Apart fileName (outputFiles fileName first outputs) := by
  intro f hf
  obtain ⟨extension, text, htext, rfl⟩ := mem_outputFiles hf
  refine ⟨rfl, fun g hg heq => ?_⟩
  obtain ⟨extension', text', htext', rfl⟩ := mem_outputFiles hg
  obtain rfl : extension = extension' := Option.some.inj heq
  rw [Option.some.inj (htext.symm.trans htext')]

theorem Apart.lastFile? (h : Apart fileName files) (hf : f ∈ files) :
    lastFile? files f.name f.extension = some f := by
  cases hlast : Sitewright.lastFile? files f.name f.extension with
  | none =>
    have hno := List.find?_eq_none.1 hlast f (List.mem_reverse.2 hf)
    simp [File.isAt] at hno
  | some g =>
    obtain ⟨hg, hat⟩ := Folder.mem_of_lastFile? hlast
    rw [(h g hg).2 f hf (Folder.isAt_iff.1 hat).2]

theorem Generator.apart_linkFiles {generator : Generator} {chunks : ChunkStore}
    (h : generator.linkFiles chunks fileName = .ok files) : Apart fileName files := by
  obtain ⟨linked, -, h⟩ := bind_ok_iff.1 h
  obtain ⟨outputs, -, h⟩ := bind_ok_iff.1 h
  cases h
  exact apart_outputFiles

theorem Generator.apart_generate {generator : Generator} {c : Component} {options : Options}
    {compiled : Compiled} (h : generator.generate c options = .ok compiled) :
    Apart c.fileName compiled.files := by
  obtain ⟨-, -, h⟩ := bind_ok_iff.1 h
  obtain ⟨draft, -, h⟩ := bind_ok_iff.1 h
  obtain ⟨imports, -, h⟩ := bind_ok_iff.1 h
  obtain ⟨files, hfiles, h⟩ := bind_ok_iff.1 h
  cases h
  exact apart_linkFiles hfiles

end Sitewright
