import Sitewright.Configuration.Codec
import Sitewright.Proofs.Json.Records
import Sitewright.Proofs.Toml.Keeping

/-!
# Reading configurations

A configuration that is read has the name that its document has under `project.name`.
-/

namespace Sitewright.Configuration

open Json Toml

variable {c : Configuration} {text key v : String} {entries inner : List (String × Toml)}
  {t : Toml} {origin : Origin}

theorem read_ok_iff : read text = .ok c ↔ ∃ t, Toml.read? text = some t ∧
    ofJson? .toml t.toJson = some c ∧ c.validate = .ok () := by
  rw [read]
  cases hread : (Toml.read? text).bind fun t => ofJson? .toml t.toJson with
  | none =>
    refine ⟨nofun, ?_⟩
    rintro ⟨t, ht, hc, -⟩
    rw [ht, Option.bind_some, hc] at hread
    cases hread
  | some d =>
    obtain ⟨t, ht, hd⟩ := Option.bind_eq_some_iff.1 hread
    have hiff : (do d.validate; pure d : Except Fault Configuration) = .ok c ↔
        d = c ∧ d.validate = .ok () := by
      cases d.validate with
      | error e => simp [bind, Except.bind]
      | ok => simp [bind, Except.bind, pure, Except.pure]
    refine hiff.trans ⟨?_, ?_⟩
    · rintro ⟨rfl, hvalid⟩
      exact ⟨t, ht, hd, hvalid⟩
    · rintro ⟨t', ht', hc, hvalid⟩
      obtain rfl := Option.some.inj (ht.symm.trans ht')
      obtain rfl := Option.some.inj (hd.symm.trans hc)
      exact ⟨rfl, hvalid⟩

theorem entriesToJson_eq_map (entries : List (String × Toml)) :
    entriesToJson entries = entries.map fun e => (e.1, e.2.toJson) := by
  induction entries with
  | nil => rfl
  | cons e entries ih =>
    obtain ⟨key, t⟩ := e
    rw [entriesToJson, ih, List.map_cons]

/-- A field that a record has once is the first one under its key. -/
theorem pick_entriesToJson {json : Option Json} (h : entries.lookup key = some t)
    (hpick : pick (entriesToJson entries) [key] = some json) : json = some t.toJson := by
  obtain ⟨front, back, rfl, hfront⟩ := List.lookup_eq_some_iff.1 h
  have hnone : (front.map fun e => (e.1, e.2.toJson)).filter ([key].contains ·.1) = [] := by
    refine List.filter_eq_nil_iff.2 fun e he => ?_
    obtain ⟨e, hmem, rfl⟩ := List.mem_map.1 he
    have hne : e.1 ≠ key := (bne_iff_ne.1 (hfront e hmem)).symm
    simpa using hne
  rw [pick, entriesToJson_eq_map, List.map_append, List.map_cons, List.filter_append, hnone,
    List.filter_cons_of_pos (by simp)] at hpick
  cases hback : (back.map fun e => (e.1, e.2.toJson)).filter ([key].contains ·.1) with
  | nil =>
    rw [hback] at hpick
    exact (Option.some.inj hpick).symm
  | cons e rest =>
    rw [hback] at hpick
    cases hpick

theorem eq_of_projectName? {name : Option String} (h : inner.lookup "name" = some (.string v))
    (hread : projectName? .toml (Toml.toJson (.table origin inner)) = some name) :
    name = some v := by
  obtain ⟨values, hvalues, hread⟩ := Option.bind_eq_some_iff.1 hread
  rw [Toml.toJson, record?_object, List.mapM_cons] at hvalues
  obtain ⟨found, hpick, hvalues⟩ := Option.bind_eq_some_iff.1 hvalues
  cases hvalues
  rw [pick_entriesToJson h hpick] at hread
  exact (Option.some.inj hread).symm

/-- The name of a configuration is the string that the document has for it. -/
theorem projectName_eq (h : HasString v ["project", "name"] (.table origin entries))
    (hread : ofJson? .toml (Toml.toJson (.table origin entries)) = some c) :
    c.projectName = some v := by
  obtain _ | ⟨hproject, _ | ⟨hname, _ | _⟩⟩ := h
  obtain ⟨values, hvalues, hread⟩ := Option.bind_eq_some_iff.1 hread
  rw [Toml.toJson, record?_object, List.mapM_cons] at hvalues
  obtain ⟨project, hpick, hvalues⟩ := Option.bind_eq_some_iff.1 hvalues
  obtain ⟨rest, -, hvalues⟩ := Option.bind_eq_some_iff.1 hvalues
  cases hvalues
  rw [pick_entriesToJson hproject hpick] at hread
  split at hread
  · next heq =>
    obtain ⟨rfl, -⟩ := List.cons.inj heq
    obtain ⟨found, hfound, hread⟩ := Option.bind_eq_some_iff.1 hread
    obtain ⟨output, -, hread⟩ := Option.bind_eq_some_iff.1 hread
    obtain ⟨strategy, -, hread⟩ := Option.bind_eq_some_iff.1 hread
    obtain ⟨mapping, -, hread⟩ := Option.bind_eq_some_iff.1 hread
    cases hread
    exact eq_of_projectName? hname hfound
  · cases hread

end Sitewright.Configuration
