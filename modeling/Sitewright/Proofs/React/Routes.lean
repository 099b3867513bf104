import Sitewright.Proofs.React.ModuleImports

/-!
# Imports of the routes

The application module imports the module of every route under the class name of its page, beside
its libraries and the style sheet of the project. The module is made exactly when each of these
names stands for one module and each of these modules has one name.
-/

namespace Sitewright

open Outcome

theorem Options.eq_of_globalStyleSheet? {options : Options} {path : String} {d : Dependency}
    (h : (path, d) ∈ options.globalStyleSheet?) : d = (Dependency.localPath path).sideEffect := by
  obtain ⟨sheet, -, h⟩ := Option.bind_eq_some_iff.1 h
  split at h
  · obtain ⟨rfl, rfl⟩ := Prod.mk.inj (Option.some.inj h)
    rfl
  · cases h

namespace React

variable {c : Component} {options : Options} {imports : Imports} {x : String} {d : Dependency}

/-- Each name that a route is imported under stands for one module. -/
structure NamesFit (options : Options) : Prop where
  library : ∀ r ∈ options.routes, r.componentName ∉ routerImports.map Prod.fst
  sheet : ∀ r ∈ options.routes, ∀ path d, (path, d) ∈ options.globalStyleSheet? →
    r.componentName = path → r.modulePath = path
  route : ∀ r ∈ options.routes, ∀ q ∈ options.routes,
    r.componentName = q.componentName → r.modulePath = q.modulePath

def IsBound (options : Options) (r : Route) : Prop :=
  r ∈ options.routes ∧ ∀ path d, (path, d) ∈ options.globalStyleSheet? → r.componentName ≠ path

/-- Each module of a route is imported under one name. -/
def ModulesFit (options : Options) : Prop :=
  ∀ r q, IsBound options r → IsBound options q →
    r.modulePath = q.modulePath → r.componentName = q.componentName

theorem mem_routerRecords : (x, d) ∈ routerRecords options ↔
    (x, d) ∈ routerImports ∨
    (∃ r ∈ options.routes, r.componentName = x ∧ .localPath r.modulePath = d) ∨
    (x, d) ∈ options.globalStyleSheet? := by
  simp [routerRecords]

theorem eq_of_mem_routerImports {e : Dependency} (h : (x, d) ∈ routerImports)
    (h' : (x, e) ∈ routerImports) : d = e := by
  have hkeys : (routerImports.map Prod.fst).Nodup := by decide
  exact congrArg Prod.snd (List.inj_on_of_nodup_map hkeys h h' rfl)

theorem library_of_mem_routerImports (h : (x, d) ∈ routerImports) :
    d.kind = .library ∧ beginsWith "." d.source = false ∧ '/' ∉ x.toList := by
  have hall : ∀ r ∈ routerImports,
      r.2.kind = .library ∧ beginsWith "." r.2.source = false ∧ '/' ∉ r.1.toList := by decide
  exact hall _ h

/-- Every record under the name of a route names the module of the route. -/
theorem NamesFit.source_eq (h : NamesFit options) {r : Route} (hr : r ∈ options.routes)
    (hd : (r.componentName, d) ∈ routerRecords options) : d.source = r.modulePath := by
  rcases mem_routerRecords.1 hd with hd | ⟨q, hq, hname, rfl⟩ | hd
  · exact absurd (List.mem_map_of_mem hd) (h.library r hr)
  · exact h.route q hq r hr hname
  · rw [Options.eq_of_globalStyleSheet? hd]
    exact (h.sheet r hr _ _ hd rfl).symm

theorem oneSource_of_namesFit (h : NamesFit options) :
    Imports.OneSource (routerRecords options) := by
  rintro ⟨x, d⟩ hd ⟨y, e⟩ he rfl
  by_cases hroute : ∃ r ∈ options.routes, r.componentName = x
  · obtain ⟨r, hr, rfl⟩ := hroute
    exact (h.source_eq hr hd).trans (h.source_eq hr he).symm
  · -- the names of the libraries hold no slash, that of the style sheet does
    have hother {d : Dependency} (hd : (x, d) ∈ routerRecords options) :
        (x, d) ∈ routerImports ∧ '/' ∉ x.toList ∨
          d = (Dependency.localPath x).sideEffect ∧ '/' ∈ x.toList := by
      rcases mem_routerRecords.1 hd with hd | ⟨r, hr, hname, -⟩ | hd
      · exact .inl ⟨hd, (library_of_mem_routerImports hd).2.2⟩
      · exact absurd ⟨r, hr, hname⟩ hroute
      · exact .inr ⟨Options.eq_of_globalStyleSheet? hd,
          slash_mem_globalStyleSheet? (Option.mem_toList.2 hd)⟩
    rcases hother hd with ⟨hd, hslash⟩ | ⟨rfl, hslash⟩ <;>
      rcases hother he with ⟨he, hslash'⟩ | ⟨rfl, hslash'⟩
    · rw [eq_of_mem_routerImports hd he]
    · exact absurd hslash' hslash
    · exact absurd hslash hslash'
    · rfl

/-- Routes lead to files of the project. -/
def LeadInside (routes : List Route) : Prop := ∀ r ∈ routes, beginsWith "." r.modulePath = true

theorem namesFit_of_oneSource (hinside : LeadInside options.routes)
    (h : Imports.OneSource (routerRecords options)) : NamesFit options := by
  have hroute {r : Route} (hr : r ∈ options.routes) :
      (r.componentName, Dependency.localPath r.modulePath) ∈ routerRecords options :=
    mem_routerRecords.2 (.inr (.inl ⟨r, hr, rfl, rfl⟩))
  refine ⟨fun r hr hname => ?_, fun r hr path d hd hname => ?_, fun r hr q hq hname => ?_⟩
  · obtain ⟨⟨x, d⟩, hx, rfl⟩ := List.mem_map.1 hname
    have hsource : r.modulePath = d.source :=
      h _ (hroute hr) (r.componentName, d) (mem_routerRecords.2 (.inl hx)) rfl
    have houtside := (library_of_mem_routerImports hx).2.1
    rw [← hsource, hinside r hr] at houtside
    cases houtside
  · have hsource := h _ (hroute hr) (path, d) (mem_routerRecords.2 (.inr (.inr hd))) hname
    rw [Options.eq_of_globalStyleSheet? hd] at hsource
    exact hsource
  · exact h _ (hroute hr) _ (hroute hq) hname

theorem exists_mergeAll_routerRecords_iff (hinside : LeadInside options.routes) :
    (∃ imports, Imports.empty.mergeAll (routerRecords options) = .ok imports) ↔
      NamesFit options := by
  rw [Imports.exists_mergeAll_empty_iff]
  exact ⟨namesFit_of_oneSource hinside, oneSource_of_namesFit⟩

/-! ## Names of modules -/

section Merged

variable (himports : Imports.empty.mergeAll (routerRecords options) = .ok imports)
include himports

theorem get?_sheet (hd : (x, d) ∈ options.globalStyleSheet?) :
    imports.get? x = some (Dependency.localPath x).sideEffect := by
  rw [Imports.get?_of_mergeAll_empty himports, routerRecords, Imports.lastUnder_append,
    Option.mem_def.1 hd, Options.eq_of_globalStyleSheet? hd]
  simp [Imports.lastUnder, Imports.under]

theorem get?_route (hfit : NamesFit options) {r : Route} (hr : IsBound options r) :
    imports.get? r.componentName = some (.localPath r.modulePath) := by
  obtain ⟨hr, hsheet⟩ := hr
  have hmem : (r.componentName, Dependency.localPath r.modulePath) ∈ routerRecords options :=
    mem_routerRecords.2 (.inr (.inl ⟨r, hr, rfl, rfl⟩))
  obtain ⟨d, hd⟩ := Imports.exists_lastUnder hmem
  rw [Imports.get?_of_mergeAll_empty himports, hd]
  rcases mem_routerRecords.1 (Imports.mem_of_lastUnder hd) with hd | ⟨q, hq, hname, rfl⟩ | hd
  · exact absurd (List.mem_map_of_mem hd) (hfit.library r hr)
  · rw [hfit.route q hq r hr hname]
  · exact absurd rfl (hsheet _ _ hd)

/-- What is imported whole is a library of the router's own, or the module of a route. -/
theorem whole_import (hd : imports.get? x = some d) :
    (x, d) ∈ routerImports ∨
    (∃ r, IsBound options r ∧ r.componentName = x ∧ .localPath r.modulePath = d) ∨
    d.importKind = .sideEffect := by
  have hmem : (x, d) ∈ routerRecords options := by
    rw [Imports.get?_of_mergeAll_empty himports] at hd
    exact Imports.mem_of_lastUnder hd
  rcases mem_routerRecords.1 hmem with h | ⟨r, hr, rfl, rfl⟩ | h
  · exact .inl h
  · refine .inr (.inl ⟨r, ⟨hr, fun path e he hname => ?_⟩, rfl, rfl⟩)
    rw [hname, get?_sheet himports he] at hd
    have hway := congrArg Dependency.importKind (Option.some.inj hd)
    cases hway
  · rw [Options.eq_of_globalStyleSheet? h]
    exact .inr (.inr rfl)

theorem conflict_iff (hfit : NamesFit options) : imports.Conflict ↔ ¬ ModulesFit options := by
  constructor
  · rintro ⟨x, y, d, e, hne, hx, hy, hkind, hsource, hway⟩ hmodules
    have hlibraries : ∀ r ∈ routerImports, ∀ q ∈ routerImports, r.1 ≠ q.1 →
        r.2.source = q.2.source → r.2.importKind = .named := by decide
    have hkinds {x : String} {d : Dependency} (h : (x, d) ∈ routerImports) : d.kind = .library :=
      (library_of_mem_routerImports h).1
    rcases whole_import himports hx with hx | ⟨r, hr, rfl, rfl⟩ | hx
    · rcases whole_import himports hy with hy | ⟨q, hq, rfl, rfl⟩ | hy
      · have hnamed : d.importKind = .named := hlibraries _ hx _ hy hne hsource
        simp [hnamed] at hway
      · rw [hkinds hx] at hkind
        cases hkind
      · simp [hy] at hway
    · rcases whole_import himports hy with hy | ⟨q, hq, rfl, rfl⟩ | hy
      · rw [hkinds hy] at hkind
        cases hkind
      · exact hne (hmodules r q hr hq hsource)
      · simp [hy] at hway
    · simp [hx] at hway
  · intro h
    simp only [ModulesFit, not_forall] at h
    obtain ⟨r, q, hr, hq, hmodule, hne⟩ := h
    exact ⟨_, _, _, _, hne, get?_route himports hfit hr, get?_route himports hfit hq, rfl, hmodule,
      .inl ⟨rfl, rfl⟩⟩

end Merged

/-! ## Generations -/

theorem run_router {d : Draft} (h : d.options.routes ≠ []) :
    router.run d = (d.imports.mergeAll (routerRecords d.options)).map fun imports =>
      { d with imports }.addChunks [scriptChunk "router" (application d.options.routes)] := by
  have hsome : ¬ d.options.routes.isEmpty = true := by simpa using h
  simp only [router, if_neg hsome, Draft.importAll, routerRecords]
  generalize d.imports.mergeAll _ = merged
  cases merged with
  | error f => rfl
  | ok imports => rfl

def routerDraft (c : Component) (options : Options) (imports : Imports) : Draft :=
  { Generator.reactRouter.start c options with imports }.addChunks
    [scriptChunk "router" (application options.routes)]

theorem allImports_routerDraft (c : Component) (options : Options) (imports : Imports) :
    (routerDraft c options imports).allImports = .ok imports := rfl

section Generation

variable (hvalid : options.validate = .ok ()) (hroutes : options.routes ≠ [])
include hvalid hroutes

theorem generate_router_of_ambiguous (h : ¬ Imports.OneSource (routerRecords options)) :
    ∃ identifier existing incoming, Generator.reactRouter.generate c options =
      .error (.ambiguousDependency identifier existing incoming) := by
  rcases exists_ok_or_error (Imports.empty.mergeAll (routerRecords options)) with hok | ⟨f, hf⟩
  · exact absurd (Imports.exists_mergeAll_empty_iff.1 hok) h
  · obtain ⟨identifier, existing, incoming, rfl⟩ := Imports.mergeAll_error hf
    have hrun : router.run (Generator.reactRouter.start c options) =
        .error (.ambiguousDependency identifier existing incoming) :=
      (run_router hroutes).trans (congrArg _ hf)
    refine ⟨identifier, existing, incoming, ?_⟩
    rw [Generator.generate, hvalid, Generator.plugins_reactRouter, runPlugins_append,
      runPlugins_singleton, hrun]
    rfl

omit hvalid in
theorem runPlugins_router_of_merged
    (himports : Imports.empty.mergeAll (routerRecords options) = .ok imports) :
    runPlugins Generator.reactRouter.plugins (Generator.reactRouter.start c options) =
      importStatements.run (routerDraft c options imports) := by
  have hrun : router.run (Generator.reactRouter.start c options) =
      .ok (routerDraft c options imports) := (run_router hroutes).trans (congrArg _ himports)
  rw [Generator.plugins_reactRouter, runPlugins_append, runPlugins_singleton, hrun]
  exact runPlugins_singleton _ _

theorem generate_router_of_conflict
    (himports : Imports.empty.mergeAll (routerRecords options) = .ok imports)
    (h : imports.Conflict) :
    ∃ source existing incoming, Generator.reactRouter.generate c options =
      .error (.conflictingImport source existing incoming) := by
  obtain ⟨source, existing, incoming, herror⟩ := run_importStatements_of_clash
    (allImports_routerDraft c options imports) fun hfree => pairwise_not_clash_iff.1 hfree h
  refine ⟨source, existing, incoming, ?_⟩
  rw [Generator.generate, hvalid, runPlugins_router_of_merged hroutes himports, herror]
  rfl

theorem exists_generate_router_of_free
    (himports : Imports.empty.mergeAll (routerRecords options) = .ok imports)
    (h : ¬ imports.Conflict) :
    ∃ compiled, Generator.reactRouter.generate c options = .ok compiled := by
  have hdraft := run_importStatements (allImports_routerDraft c options imports)
    (pairwise_not_clash_iff.2 h)
  exact (Generator.completes_reactRouter c options).exists_generate_ok_iff.2
    ⟨hvalid, _, (runPlugins_router_of_merged hroutes himports).trans hdraft⟩

/-- The application module is made, or it fails on a name that stands for two modules, or else on a
module that has two names. -/
theorem generate_router_outcome (c : Component) (hinside : LeadInside options.routes) :
    ((∃ compiled, Generator.reactRouter.generate c options = .ok compiled) ↔
      NamesFit options ∧ ModulesFit options) ∧
    ((∃ identifier existing incoming, Generator.reactRouter.generate c options =
      .error (.ambiguousDependency identifier existing incoming)) ↔ ¬ NamesFit options) ∧
    ((∃ source existing incoming, Generator.reactRouter.generate c options =
      .error (.conflictingImport source existing incoming)) ↔
        NamesFit options ∧ ¬ ModulesFit options) := by
  by_cases hnames : NamesFit options
  · obtain ⟨imports, himports⟩ := (exists_mergeAll_routerRecords_iff hinside).2 hnames
    by_cases hmodules : ModulesFit options
    · obtain ⟨compiled, h⟩ := exists_generate_router_of_free (c := c) hvalid hroutes himports
        fun hconflict => (conflict_iff himports hnames).1 hconflict hmodules
      simp [h, hnames, hmodules]
    · obtain ⟨source, existing, incoming, h⟩ := generate_router_of_conflict (c := c) hvalid hroutes
        himports ((conflict_iff himports hnames).2 hmodules)
      simp [h, hnames, hmodules]
  · obtain ⟨identifier, existing, incoming, h⟩ := generate_router_of_ambiguous (c := c) hvalid
      hroutes fun h => hnames (namesFit_of_oneSource hinside h)
    simp [h, hnames]

end Generation

end React

end Sitewright
