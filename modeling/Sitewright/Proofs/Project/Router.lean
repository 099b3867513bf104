import Sitewright.Proofs.Project.Pages
import Sitewright.Proofs.Project.References
import Sitewright.Proofs.React.Routes

/-!
# The router of a project

The router imports the module of each page under the class name of the page. The checks on a project
tell its pages apart by their folders and file names only, so that they let class names pass which
the router cannot tell apart.
-/

namespace Sitewright

open Outcome

/-! ## Ways to modules -/

theorem beginsWith_append {start : String} (h : beginsWith "." start = true) (rest : String) :
    beginsWith "." (start ++ rest) = true := by
  rw [beginsWith_iff] at h ⊢
  rw [String.toList_append]
  exact h.trans (List.prefix_append _ _)

theorem beginsWith_relativePrefix (start target : List String) :
    beginsWith "." (relativePrefix start target) = true := by
  simp only [relativePrefix]
  split
  · decide
  · split
    · next hup =>
      rw [beginsWith_iff] at hup ⊢
      exact (by decide : ".".toList <+: "..".toList).trans hup
    · exact beginsWith_append (by decide) _

theorem beginsWith_dropEndSlashes {s : String} (h : beginsWith "." s = true) :
    beginsWith "." (dropEndSlashes s) = true := by
  obtain ⟨rest, hrest⟩ := beginsWith_iff.1 h
  have hdot : ".".toList = ['.'] := rfl
  rw [hdot] at hrest
  rw [beginsWith_iff, hdot, dropEndSlashes, String.toList_ofList, ← hrest, List.reverse_append,
    List.reverse_singleton, List.dropWhile_append]
  split
  · exact List.prefix_refl _
  · rw [List.reverse_append]
    exact List.prefix_append _ _

theorem beginsWith_joinModulePath {modulePrefix : String}
    (h : beginsWith "." modulePrefix = true) (path : String) :
    beginsWith "." (joinModulePath modulePrefix path) = true := by
  simp only [joinModulePath]
  split
  · exact beginsWith_dropEndSlashes h
  · rw [String.append_assoc]
    exact beginsWith_append (beginsWith_dropEndSlashes h) _

/-- A project with pages that have an address and a class name each. -/
structure Project.IsRoutable (p : Project) : Prop where
  hasPages : p.pages ≠ []
  complete : ∀ page ∈ p.pages, page.navLink ≠ "" ∧ page.component.className ≠ ""

namespace Strategy

variable {s : Strategy} {p : Project} {mapping : Option Mapping} {router : RouterSection}

theorem leadInside_routes (s : Strategy) (p : Project) (location : List String) :
    React.LeadInside (s.routes p location) := by
  intro r hr
  obtain ⟨page, -, rfl⟩ := List.mem_map.1 hr
  exact beginsWith_joinModulePath (beginsWith_relativePrefix _ _) _

theorem validate_routerOptions (hsheet : ∀ sheet ∈ s.styleSheet, sheet.fileName ≠ "")
    (hp : p.IsRoutable) : (s.routerOptions p mapping router).validate = .ok () := by
  have hprefix : (s.routerOptions p mapping router).checkPrefix = .ok () := by
    simp [Options.checkPrefix, routerOptions, beginsWith_relativePrefix]
  have hstyle : (s.routerOptions p mapping router).checkStyleSheet = .ok () := by
    cases h : s.styleSheet with
    | none => simp [Options.checkStyleSheet, routerOptions, optionsFor, styleSheetFrom, h]
    | some sheet =>
      simp [Options.checkStyleSheet, routerOptions, optionsFor, styleSheetFrom, h, hsheet sheet h]
  have hroutes : (s.routes p router.path).forM Options.checkRoute = .ok () := by
    rw [forM_ok_iff]
    intro r hr
    obtain ⟨page, hpage, rfl⟩ := List.mem_map.1 hr
    simp [Options.checkRoute, hp.complete page hpage]
  rw [Options.validate, hprefix, hstyle]
  exact hroutes

theorem routes_ne_nil (hp : p.IsRoutable) (location : List String) : s.routes p location ≠ [] := by
  rw [routes, ne_eq, List.map_eq_nil_iff]
  exact hp.hasPages

/-! ## Plain pages -/

theorem modulePath_eq_iff (hs : s.IsPlain) {location : List String}
    (hlocation : ∀ t ∈ location, Path.IsPlain t) {c other : Component} (hc : c.IsPlain)
    (hother : other.IsPlain) :
    (s.pages.placement c).modulePathFrom location =
      (s.pages.placement other).modulePathFrom location ↔
        s.pages.placement c = s.pages.placement other := by
  have hfollow {c : Component} (hc : c.IsPlain) := Placement.follow_modulePathFrom
    (ComponentSection.isPlain_folder hs.pages hc) (ComponentSection.isPlain_fileName hs.pages hc)
    hlocation
  constructor
  · intro h
    have hsteps := (hfollow hc).symm.trans ((congrArg _ h).trans (hfollow hother))
    obtain ⟨hfolder, hfile⟩ := List.append_inj' (Option.some.inj hsteps) rfl
    exact Placement.ext hfolder (List.singleton_inj.1 hfile)
  · intro h
    rw [h]

/-! ## The router of the React strategy -/

def routerNames : List String := "./style.css" :: React.routerImports.map Prod.fst

theorem globalStyleSheet?_routerOptions : (s.routerOptions p mapping router).globalStyleSheet? =
    (s.optionsFor p router.path mapping true).globalStyleSheet? := by
  rw [Options.globalStyleSheet?, Options.globalStyleSheet?, routerOptions]

theorem path_react {router : RouterSection} (h : router ∈ react.router) : router.path = ["src"] := by
  obtain rfl := Option.some.inj h
  rfl

theorem joinModulePath_style : joinModulePath (relativePrefix ["src"] ["src"]) ("style" ++ ".css") =
    "./style.css" := by decide +kernel

theorem globalStyleSheet?_react (p : Project) (mapping : Option Mapping) {router : RouterSection}
    (h : router ∈ react.router) : (react.routerOptions p mapping router).globalStyleSheet? =
      some ("./style.css", (Dependency.localPath "./style.css").sideEffect) := by
  have hsheet : react.styleSheet =
      some { generator := .projectStyleSheet, path := ["src"], fileName := "style" } := rfl
  rw [globalStyleSheet?_routerOptions, globalStyleSheet?_optionsFor, hsheet, path_react h,
    Option.bind_some, joinModulePath_style]
  rfl

section Router

variable (hrouter : router ∈ react.router)
include hrouter

theorem mem_globalStyleSheet?_react {path : String} {d : Dependency}
    (h : (path, d) ∈ (react.routerOptions p mapping router).globalStyleSheet?) :
    path = "./style.css" := by
  rw [globalStyleSheet?_react p mapping hrouter] at h
  exact (congrArg Prod.fst (Option.some.inj h)).symm

theorem mem_routes_react {r : Route} : r ∈ (react.routerOptions p mapping router).routes ↔
    ∃ page ∈ p.pages, r = ⟨page.navLink, page.component.className,
      (react.pages.placement page.component).modulePathFrom ["src"]⟩ := by
  rw [routerOptions, path_react hrouter, routes, List.mem_map]
  simp only [eq_comm]

omit hrouter in
theorem modulePath_ne_style {c : Component} (hc : c.IsPlain) :
    (react.pages.placement c).modulePathFrom ["src"] ≠ "./style.css" := by
  intro h
  have hsrc : ∀ t ∈ ["src"], Path.IsPlain t := by decide
  have hfollow := Placement.follow_modulePathFrom
    (ComponentSection.isPlain_folder isPlain_react.pages hc)
    (ComponentSection.isPlain_fileName isPlain_react.pages hc) hsrc
  have hsheet : Path.follow ["src"] "./style.css" = some ["src", "style.css"] := by decide
  rw [h, hsheet, Placement.steps, ComponentSection.placement_folder] at hfollow
  have hlength := congrArg List.length (Option.some.inj hfollow)
  have hpath : react.pages.path = ["src", "views"] := rfl
  simp [hpath] at hlength

/-- The names and modules of plain pages are in order exactly when their class names differ from each
other and from the names that the router imports by itself. -/
theorem fit_iff_of_isPlain (hp : p.validate = .ok ())
    (hplain : ∀ page ∈ p.pages, page.component.IsPlain) :
    (React.NamesFit (react.routerOptions p mapping router) ∧
      React.ModulesFit (react.routerOptions p mapping router)) ↔
    (p.pages.map (·.component.className)).Nodup ∧
      ∀ page ∈ p.pages, page.component.className ∉ routerNames := by
  have hplaces : (p.pages.map fun page => react.pages.placement page.component).Nodup := by
    have h := nodup_placements hp react.pages
    rwa [List.map_map] at h
  have hmodules : ∀ page ∈ p.pages, ∀ other ∈ p.pages,
      (react.pages.placement page.component).modulePathFrom ["src"] =
        (react.pages.placement other.component).modulePathFrom ["src"] → page = other := by
    intro page hpage other hother h
    have hsame := (modulePath_eq_iff isPlain_react (by decide) (hplain page hpage)
      (hplain other hother)).1 h
    exact List.inj_on_of_nodup_map hplaces hpage hother hsame
  have hroute {page : Page} (hpage : page ∈ p.pages) :
      Route.mk page.navLink page.component.className
        ((react.pages.placement page.component).modulePathFrom ["src"]) ∈
          (react.routerOptions p mapping router).routes :=
    (mem_routes_react hrouter).2 ⟨page, hpage, rfl⟩
  constructor
  · rintro ⟨hnames, -⟩
    refine ⟨List.Nodup.map_on (fun page hpage other hother h => ?_)
      (List.Nodup.of_map _ hplaces), fun page hpage hmem => ?_⟩
    · exact hmodules page hpage other hother (hnames.route _ (hroute hpage) _ (hroute hother) h)
    · rcases List.mem_cons.1 hmem with h | h
      · exact modulePath_ne_style (hplain page hpage) (hnames.sheet _ (hroute hpage) _ _
          (globalStyleSheet?_react p mapping hrouter) h)
      · exact hnames.library _ (hroute hpage) h
  · rintro ⟨hnodup, hown⟩
    refine ⟨⟨fun r hr => ?_, fun r hr path d hd hname => ?_, fun r hr q hq hname => ?_⟩,
      fun r q hr hq hmodule => ?_⟩
    · obtain ⟨page, hpage, rfl⟩ := (mem_routes_react hrouter).1 hr
      exact fun h => hown page hpage (List.mem_cons_of_mem _ h)
    · obtain ⟨page, hpage, rfl⟩ := (mem_routes_react hrouter).1 hr
      have hsheet : page.component.className = "./style.css" :=
        hname.trans (mem_globalStyleSheet?_react hrouter hd)
      exact absurd (List.mem_cons.2 (.inl hsheet)) (hown page hpage)
    · obtain ⟨page, hpage, rfl⟩ := (mem_routes_react hrouter).1 hr
      obtain ⟨other, hother, rfl⟩ := (mem_routes_react hrouter).1 hq
      rw [List.inj_on_of_nodup_map hnodup hpage hother hname]
    · obtain ⟨page, hpage, rfl⟩ := (mem_routes_react hrouter).1 hr.1
      obtain ⟨other, hother, rfl⟩ := (mem_routes_react hrouter).1 hq.1
      rw [hmodules page hpage other hother hmodule]

end Router

/-- The application module of a project whose pages have addresses and class names is made exactly
when each class name stands for one module and each module has one class name. For plain pages this
is so exactly when their class names differ from each other and from the names that the router
imports by itself, which the checks on the project do not ask for. -/
theorem router_accepts_iff (hp : p.validate = .ok ()) (hroutable : p.IsRoutable)
    (mapping : Option Mapping) : ∀ router ∈ react.router,
    let options := react.routerOptions p mapping router
    ((∃ d, react.deliverRouter p mapping router = .ok d) ↔
      React.NamesFit options ∧ React.ModulesFit options) ∧
    ((∃ identifier existing incoming, react.deliverRouter p mapping router =
        .error (.ambiguousDependency identifier existing incoming)) ↔ ¬ React.NamesFit options) ∧
    ((∃ source existing incoming, react.deliverRouter p mapping router =
        .error (.conflictingImport source existing incoming)) ↔
      React.NamesFit options ∧ ¬ React.ModulesFit options) ∧
    ((∀ page ∈ p.pages, page.component.IsPlain) →
      ((∃ d, react.deliverRouter p mapping router = .ok d) ↔
        (p.pages.map (·.component.className)).Nodup ∧
          ∀ page ∈ p.pages, page.component.className ∉ routerNames)) := by
  intro router hrouter options
  have hgenerator : router.generator = .reactRouter := by
    obtain rfl := Option.some.inj hrouter
    rfl
  have hsheet : ∀ sheet ∈ react.styleSheet, sheet.fileName ≠ "" := by
    rintro sheet ⟨⟩
    decide
  have hvalid : options.validate = .ok () := validate_routerOptions hsheet hroutable
  obtain ⟨hok, hambiguous, hconflicting⟩ := React.generate_router_outcome hvalid
    (routes_ne_nil hroutable router.path) (p.root.renamed router.fileName)
    (leadInside_routes react p router.path)
  have hdelivered : (∃ d, react.deliverRouter p mapping router = .ok d) ↔
      React.NamesFit options ∧ React.ModulesFit options := by
    rw [← hok, deliverRouter, hgenerator]
    simp only [map_ok_iff]
    constructor
    · rintro ⟨-, compiled, hcompiled, -⟩
      exact ⟨compiled, hcompiled⟩
    · rintro ⟨compiled, hcompiled⟩
      exact ⟨_, compiled, hcompiled, rfl⟩
  refine ⟨hdelivered, ?_, ?_, fun hplain => ?_⟩
  · rw [← hambiguous, deliverRouter, hgenerator]
    simp only [map_error_iff]
    rfl
  · rw [← hconflicting, deliverRouter, hgenerator]
    simp only [map_error_iff]
    rfl
  · rw [hdelivered, fit_iff_of_isPlain hrouter hp hplain]

def greetingPage (navLink name language : String) : Page :=
  ⟨navLink, { name, node := .element { kind := "container" } []
              output := { folderPath := [language] } }⟩

def bilingual (first second : String) : Project where
  name := "Greetings"
  root := { name := "App", node := .text "" }
  pages := [greetingPage "/" first "en", greetingPage "/de" second "de"]

theorem isRoutable_bilingual {first second : String} (hfirst : upperCamelCase first ≠ "")
    (hsecond : upperCamelCase second ≠ "") : (bilingual first second).IsRoutable where
  hasPages := List.cons_ne_nil _ _
  complete := by
    simp only [bilingual, List.forall_mem_cons, greetingPage, Component.className]
    exact ⟨⟨by decide, hfirst⟩, ⟨by decide, hsecond⟩, by simp⟩

theorem router_accepts_iff_bilingual :
    (bilingual "Home" "Start").validate = .ok () ∧ (bilingual "Home" "Start").IsRoutable ∧
    ∀ router ∈ react.router, ∃ d, react.deliverRouter (bilingual "Home" "Start") none router =
      .ok d := by
  have hvalid : (bilingual "Home" "Start").validate = .ok () := by decide +kernel
  have hroutable : (bilingual "Home" "Start").IsRoutable :=
    isRoutable_bilingual (by decide +kernel) (by decide +kernel)
  have hplain : ∀ page ∈ (bilingual "Home" "Start").pages, page.component.IsPlain := by
    simp only [bilingual, List.forall_mem_cons, greetingPage]
    exact ⟨⟨by decide, by decide +kernel⟩, ⟨by decide, by decide +kernel⟩, by simp⟩
  refine ⟨hvalid, hroutable, fun router hrouter => ?_⟩
  exact ((router_accepts_iff hvalid hroutable none router hrouter).2.2.2 hplain).2
    ⟨by decide +kernel, by decide +kernel⟩

/-- Pages in different folders pass the checks of a project under one name, and under a name that the
router imports, and the router refuses both. -/
theorem names_refused_by_router :
    ((bilingual "Home" "Home").validate = .ok () ∧ (bilingual "Home" "Home").IsRoutable ∧
      react.router.toList.mapM (react.deliverRouter (bilingual "Home" "Home") none) =
        .error (.ambiguousDependency "Home" "./views/en/home" "./views/de/home")) ∧
    (bilingual "Home" "Router").validate = .ok () ∧ (bilingual "Home" "Router").IsRoutable ∧
      react.router.toList.mapM (react.deliverRouter (bilingual "Home" "Router") none) =
        .error (.ambiguousDependency "Router" "react-router-dom" "./views/de/router") := by
  have hhome : (react.router.toList.mapM (react.deliverRouter (bilingual "Home" "Home") none)).map
      (fun _ => ()) = .error (.ambiguousDependency "Home" "./views/en/home" "./views/de/home") := by
    decide +kernel
  have hrouter : (react.router.toList.mapM (react.deliverRouter (bilingual "Home" "Router")
      none)).map (fun _ => ()) =
        .error (.ambiguousDependency "Router" "react-router-dom" "./views/de/router") := by
    decide +kernel
  exact ⟨⟨by decide +kernel, isRoutable_bilingual (by decide +kernel) (by decide +kernel),
      map_error_iff.1 hhome⟩,
    by decide +kernel, isRoutable_bilingual (by decide +kernel) (by decide +kernel),
    map_error_iff.1 hrouter⟩

end Strategy

end Sitewright
