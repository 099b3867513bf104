import Sitewright.Project.Generate
import Sitewright.Proofs.Folder.Lookup
import Sitewright.Proofs.Outcome
import Sitewright.Proofs.Project.Manifest

/-!
# Runs of a strategy

A run that succeeds consists of what its sections deliver, each given the deliveries of the sections
before, and of the package manifest. The files of the result are those that were delivered last, or
else those of the template.
-/

namespace Sitewright

open Outcome

variable {earlier later : List Delivery} {path : List String} {name : String}
  {extension : Option String} {f : File}

def lastDelivered? : List Delivery → List String → String → Option String → Option File
  | [], _, _, _ => none
  | d :: rest, path, name, extension =>
    (lastDelivered? rest path name extension).or
      (if d.path = path then lastFile? d.files name extension else none)

theorem lastDelivered?_append : lastDelivered? (earlier ++ later) path name extension =
    (lastDelivered? later path name extension).or
      (lastDelivered? earlier path name extension) := by
  induction earlier with
  | nil => simp [lastDelivered?]
  | cons d earlier ih => rw [List.cons_append, lastDelivered?, lastDelivered?, ih, Option.or_assoc]

/-- A file that was delivered comes from a delivery to its folder. -/
theorem exists_delivery {deliveries : List Delivery}
    (h : lastDelivered? deliveries path name extension = some f) :
    ∃ d ∈ deliveries, d.path = path ∧ f ∈ d.files ∧ f.isAt name extension = true := by
  induction deliveries with
  | nil => cases h
  | cons d deliveries ih =>
    rw [lastDelivered?, Option.or_eq_some_iff] at h
    rcases h with h | ⟨-, h⟩
    · obtain ⟨e, he, hpath, hf⟩ := ih h
      exact ⟨e, List.mem_cons_of_mem _ he, hpath, hf⟩
    · split at h
      · next hpath =>
        exact ⟨d, List.mem_cons_self, hpath, Folder.mem_of_lastFile? h⟩
      · cases h

def Delivers (deliveries : List Delivery) (path : List String) (name : String)
    (extension : Option String) : Prop :=
  ∃ d ∈ deliveries, d.path = path ∧ ∃ f ∈ d.files, f.isAt name extension = true

theorem lastDelivered?_eq_none {deliveries : List Delivery}
    (h : ¬ Delivers deliveries path name extension) :
    lastDelivered? deliveries path name extension = none := by
  rw [Option.eq_none_iff_forall_ne_some]
  intro f hf
  obtain ⟨d, hd, hpath, hmem, hat⟩ := exists_delivery hf
  exact h ⟨d, hd, hpath, f, hmem, hat⟩

theorem Output.addAll_append (o : Output) (earlier later : List Delivery) :
    o.addAll (earlier ++ later) = (o.addAll earlier).addAll later := List.foldl_append

/-- The files of an output are those that were delivered last, or else those that it had. -/
theorem Output.at?_addAll (o : Output) (deliveries : List Delivery) (path : List String)
    (name : String) (extension : Option String) :
    (o.addAll deliveries).folder.at? path name extension =
      (lastDelivered? deliveries path name extension).or (o.folder.at? path name extension) := by
  induction deliveries generalizing o with
  | nil => rfl
  | cons d deliveries ih =>
    have hadd : (o.add d).folder.at? path name extension =
        (if d.path = path then lastFile? d.files name extension else none).or
          (o.folder.at? path name extension) := by
      rw [Output.add, Folder.at?_inject]
      split
      · rfl
      · rfl
    change ((o.add d).addAll deliveries).folder.at? path name extension = _
    rw [ih, hadd, lastDelivered?, Option.or_assoc]

namespace Strategy

variable {s : Strategy} {p : Project} {template result : Folder} {mapping : Option Mapping}

/-- What the sections of a strategy deliver in a run that succeeds. -/
structure Run (s : Strategy) (p : Project) (template : Folder) (mapping : Option Mapping)
    (result : Folder) where
  components : List Delivery
  pages : List Delivery
  router : List Delivery
  entry : List Delivery
  styleSheet : List Delivery
  config : List Delivery
  replacement : List Delivery
  /-- The package manifest. -/
  manifest : File
  mapM_components : p.components.values.mapM (s.deliver p mapping s.components) = .ok components
  mapM_pages : (p.pages.map (·.component)).mapM (s.deliver p mapping s.pages) = .ok pages
  mapM_router : s.router.toList.mapM (s.deliverRouter p mapping) = .ok router
  mapM_entry : s.entry.toList.mapM (s.deliverEntry p) = .ok entry
  mapM_styleSheet : s.styleSheet.toList.mapM (s.deliverStyleSheet p mapping) = .ok styleSheet
  mapM_config : s.framework.config.toList.mapM (s.deliverFrameworkFile p
    (Output.addAll { folder := template } (components ++ pages ++ router ++ entry ++ styleSheet))) =
      .ok config
  mapM_replacement : s.framework.replacement.toList.mapM (s.deliverReplacement p
    (Output.addAll { folder := template }
      (components ++ pages ++ router ++ entry ++ styleSheet ++ config))) = .ok replacement
  isAt_manifest : manifest.isAt "package" (some "json") = true
  result_eq : result = (Output.addAll { folder := template }
    (components ++ pages ++ router ++ entry ++ styleSheet ++ config ++ replacement ++
      (s.deliverWebManifest? p).toList)).folder.inject [] [manifest]

namespace Run

def sections (run : s.Run p template mapping result) : List Delivery :=
  run.components ++ run.pages ++ run.router ++ run.entry ++ run.styleSheet ++ run.config ++
    run.replacement ++ (s.deliverWebManifest? p).toList

def output (run : s.Run p template mapping result) : Output :=
  Output.addAll { folder := template } run.sections

def afterComponents (run : s.Run p template mapping result) : List Delivery :=
  run.pages ++ run.router ++ run.entry ++ run.styleSheet ++ run.config ++ run.replacement ++
    (s.deliverWebManifest? p).toList ++ [{ path := [], files := [run.manifest] }]

def delivered (run : s.Run p template mapping result) : List Delivery :=
  run.components ++ run.afterComponents

theorem result_eq_addAll (run : s.Run p template mapping result) :
    result = (Output.addAll { folder := template } run.delivered).folder := by
  have hsplit : run.delivered = run.components ++ run.pages ++ run.router ++ run.entry ++
      run.styleSheet ++ run.config ++ run.replacement ++ (s.deliverWebManifest? p).toList ++
      [{ path := [], files := [run.manifest] }] := by
    simp only [delivered, afterComponents, List.append_assoc]
  rw [hsplit, Output.addAll_append]
  exact run.result_eq

/-- The files of a result are those that were delivered last, or else those of the template. -/
theorem at?_result (run : s.Run p template mapping result) (path : List String) (name : String)
    (extension : Option String) : result.at? path name extension =
      (lastDelivered? run.delivered path name extension).or
        (template.at? path name extension) := by
  have hresult := congrArg (·.at? path name extension) run.result_eq_addAll
  exact hresult.trans (Output.at?_addAll _ _ _ _ _)

end Run

theorem deliver_ok_iff {part : ComponentSection} {c : Component} {d : Delivery} :
    s.deliver p mapping part c = .ok d ↔ ∃ compiled,
      part.generator.generate (c.renamed (part.placement c).fileName)
        (s.optionsFor p (part.placement c).folder mapping false) = .ok compiled ∧
      compiled.deliveredTo (part.placement c).folder = d := by
  rw [deliver, map_ok_iff]

/-- A project that is generated passes its checks, and so does the strategy, whose sections make a
run that the package manifest completes. -/
theorem exists_completed_run (h : s.generate p template mapping = .ok result) :
    p.validate = .ok () ∧ s.validate = .ok () ∧ ∃ run : s.Run p template mapping result,
      completePackageManifest run.output.folder p run.output.versions ∅ = .ok result := by
  simp only [generate, stages, List.foldlM_cons, List.foldlM_nil, runStage, bind_ok_iff,
    map_ok_iff] at h
  obtain ⟨⟨⟩, hp, ⟨⟩, hs, o, ⟨_, ⟨components, hcomponents, rfl⟩, _, ⟨pages, hpages, rfl⟩,
    _, ⟨router, hrouter, rfl⟩, _, ⟨entry, hentry, rfl⟩, _, ⟨styleSheet, hsheet, rfl⟩,
    _, ⟨config, hconfig, rfl⟩, _, ⟨replacement, hreplacement, rfl⟩,
    _, ⟨webManifest, hweb, rfl⟩, ho⟩, hmanifest⟩ := h
  cases hweb
  cases ho
  simp only [← Output.addAll_append] at hconfig hreplacement hmanifest
  obtain ⟨manifest, hat, hresult⟩ := completePackageManifest_eq_inject hmanifest
  exact ⟨hp, hs, { components, pages, router, entry, styleSheet, config, replacement, manifest
                   mapM_components := hcomponents
                   mapM_pages := hpages
                   mapM_router := hrouter
                   mapM_entry := hentry
                   mapM_styleSheet := hsheet
                   mapM_config := hconfig
                   mapM_replacement := hreplacement
                   isAt_manifest := hat
                   result_eq := hresult }, hmanifest⟩

theorem exists_run (h : s.generate p template mapping = .ok result) :
    p.validate = .ok () ∧ s.validate = .ok () ∧ Nonempty (s.Run p template mapping result) := by
  obtain ⟨hp, hs, run, -⟩ := exists_completed_run h
  exact ⟨hp, hs, ⟨run⟩⟩

end Strategy

end Sitewright
