import Sitewright.Proofs.React.ModuleImports

/-!
# Names of a module

A module declares the identifiers of its imports and its own constant, and the function of a
component declares its states and their setters. The identifiers of the imports are distinct, since
they are collected by identifier. Nothing compares them with the constant of the module, nor the
setters with each other: these names are distinct under conditions on the component and the routes
only.
-/

namespace Sitewright

/-- The names that a statement declares in the scope where it stands. -/
def Script.Node.declaredNames : Script.Node → List String
  | .importing _ clause => clause.bound
  | .constant name _ _ => [name]
  | .function name _ _ _ => [name]
  | _ => []

namespace React

open Script (ImportClause)

variable {c : Component} {options : Options} {imports : Imports} {x : String}
  {declared : DependencyKind → List (String × ImportClause)}

/-! ## The scope of a module -/

/-- The names that a module declares: those of its import declarations, and those of its
statements. -/
def moduleNames (declared : List (String × ImportClause)) (body : List Script.Node) :
    List String :=
  ((declared.map fun e => Script.Node.importing e.1 e.2) ++ body).flatMap Script.Node.declaredNames

theorem moduleNames_moduleBody (declared : List (String × ImportClause)) (c : Component)
    (root : Markup.Element) :
    moduleNames declared (moduleBody c root) = boundNames declared ++ [c.className] := by
  rw [moduleNames, List.flatMap_append, List.flatMap_map]
  rfl

theorem moduleNames_application (declared : List (String × ImportClause)) (routes : List Route) :
    moduleNames declared (application routes) = boundNames declared ++ ["App"] := by
  rw [moduleNames, List.flatMap_append, List.flatMap_map]
  rfl

theorem nodup_concat_iff {names : List String} (h : names.Nodup) :
    (names ++ [x]).Nodup ↔ x ∉ names := by
  rw [← List.concat_eq_append, List.nodup_concat]
  exact and_iff_left h

theorem app_mem_routerRecords_iff {d : Dependency} : ("App", d) ∈ routerRecords options ↔
    ∃ r ∈ options.routes, r.componentName = "App" ∧ d = .localPath r.modulePath := by
  rw [routerRecords, List.mem_append, List.mem_append, List.mem_map]
  constructor
  · rintro ((hmem | ⟨r, hr, heq⟩) | hmem)
    · simp [routerImports] at hmem
    · obtain ⟨hname, rfl⟩ := Prod.mk.inj heq
      exact ⟨r, hr, hname, rfl⟩
    · have hslash : '/' ∉ "App".toList := by decide
      exact absurd (slash_mem_globalStyleSheet? hmem) hslash
  · rintro ⟨r, hr, hname, rfl⟩
    exact .inl (.inr ⟨r, hr, by rw [hname]⟩)

theorem boundLast_app_iff :
    BoundLast (routerRecords options) "App" ↔ ∃ r ∈ options.routes, r.componentName = "App" := by
  constructor
  · rintro ⟨d, hd, -⟩
    obtain ⟨r, hr, hname, -⟩ := app_mem_routerRecords_iff.1 (Imports.mem_of_lastUnder hd)
    exact ⟨r, hr, hname⟩
  · rintro ⟨r, hr, hname⟩
    obtain ⟨d, hd⟩ := Imports.exists_lastUnder (app_mem_routerRecords_iff.2 ⟨r, hr, hname, rfl⟩)
    obtain ⟨q, -, -, rfl⟩ := app_mem_routerRecords_iff.1 (Imports.mem_of_lastUnder hd)
    have hway : (Dependency.localPath q.modulePath).importKind = .default := rfl
    exact ⟨_, hd, by simp [hway]⟩

/-! ## The scope of a component's function -/

def setter (state : String) : String := "set" ++ upperCamelCase state

def stateNames (state : String) : List String := [state, setter state]

def functionNames (c : Component) : List String := "props" :: c.states.keys.flatMap stateNames

theorem stateLine_eq (name : String) (state : StateDefinition) :
    stateLine name state = .statement ("const [" ++ ", ".intercalate (stateNames name) ++
      "] = useState(" ++ state.defaultValue.value.compact ++ ")") := by
  have hnames : ", ".intercalate (stateNames name) = name ++ ", " ++ setter name := rfl
  have hset : ", set" = ", " ++ "set" := rfl
  rw [stateLine, hnames, setter, hset]
  simp only [String.append_assoc]

theorem setter_inj {x y : String} : setter x = setter y ↔ upperCamelCase x = upperCamelCase y := by
  rw [setter, setter, String.append_right_inj]

theorem stateNames_perm (keys : List String) :
    (keys.flatMap stateNames).Perm (keys ++ keys.map setter) := by
  induction keys with
  | nil => exact .refl _
  | cons x rest ih =>
    have hmove : ((x :: rest) ++ (x :: rest).map setter).Perm
        (x :: setter x :: (rest ++ rest.map setter)) := .cons x List.perm_middle
    exact ((ih.cons (setter x)).cons x).trans hmove.symm

theorem nodup_stateNames_iff {keys : List String} (hkeys : keys.Nodup) :
    (keys.flatMap stateNames).Nodup ↔
      (keys.map upperCamelCase).Nodup ∧ ∀ x ∈ keys, ∀ y ∈ keys, x ≠ setter y := by
  have hsetters : (keys.map setter).Nodup ↔ (keys.map upperCamelCase).Nodup := by
    simp only [List.Nodup, List.pairwise_map, setter_inj, ne_eq]
  rw [(stateNames_perm keys).nodup_iff, List.nodup_append, hsetters]
  simp [hkeys]

theorem nodup_functionNames_iff : (functionNames c).Nodup ↔
    "props" ∉ c.states.keys ∧ (c.states.keys.flatMap stateNames).Nodup := by
  rw [functionNames, List.nodup_cons]
  refine and_congr_left' (not_congr ?_)
  have hsetter (state : String) : "props" ≠ setter state := by
    intro h
    have hhead := congrArg (fun s => s.toList.head?) h
    simp [setter] at hhead
  simp [stateNames, hsetter]

/-! ## Generated modules -/

variable {compiled : Compiled}

theorem component_names (h : Generator.reactComponent.generate c options = .ok compiled) :
    ∃ declared styles body, MadeFrom c options styles body ∧
      (∀ file, file ∈ compiled.files ∧ file.extension = some "js" ↔
        file = File.ofParts c.fileName "js" (normalizeText (moduleText declared body))) ∧
      (boundNames declared).Nodup ∧
      ((moduleNames declared body).Nodup ↔
        ¬ BoundLast (componentRecords c options) c.className) := by
  obtain ⟨imports, declared, styles, body, himports, hdeclares, hmade, hfiles⟩ :=
    exists_component_module h
  refine ⟨allDeclared declared, styles, body, hmade, hfiles, nodup_boundNames hdeclares, ?_⟩
  obtain ⟨-, root, -, rfl⟩ := hmade
  rw [moduleNames_moduleBody, nodup_concat_iff (nodup_boundNames hdeclares),
    mem_boundNames_iff_boundLast himports hdeclares]

theorem application_names (h : Generator.reactRouter.generate c options = .ok compiled) :
    ∃ declared,
      (∀ file, file ∈ compiled.files ↔ file = File.ofParts c.fileName "js"
        (normalizeText (moduleText declared (application options.routes)))) ∧
      (boundNames declared).Nodup ∧
      ((moduleNames declared (application options.routes)).Nodup ↔
        ∀ r ∈ options.routes, r.componentName ≠ "App") := by
  obtain ⟨imports, declared, himports, hdeclares, hfiles⟩ := exists_router_module h
  refine ⟨allDeclared declared, hfiles, nodup_boundNames hdeclares, ?_⟩
  rw [moduleNames_application, nodup_concat_iff (nodup_boundNames hdeclares),
    mem_boundNames_iff_boundLast himports hdeclares, boundLast_app_iff]
  simp only [not_exists, not_and, ne_eq]

/-- The imports of a module never bind a name twice. Its constant is one of the names that they bind
exactly if the last record of its name binds it: for a component mostly if it uses itself or is
called like a binding of the library, for the application module if a page is called `App`. The
states of a component declare a name twice exactly if two of them have one setter, or one of them is
called like a setter. -/
theorem scopes_nodup_iff (c : Component) (options : Options) :
    (∀ compiled, Generator.reactComponent.generate c options = .ok compiled →
      ∃ declared styles body, MadeFrom c options styles body ∧
        (∀ file, file ∈ compiled.files ∧ file.extension = some "js" ↔
          file = File.ofParts c.fileName "js" (normalizeText (moduleText declared body))) ∧
        (boundNames declared).Nodup ∧
        ((moduleNames declared body).Nodup ↔
          ¬ BoundLast (componentRecords c options) c.className)) ∧
    ('/' ∉ c.className.toList →
      (∀ e ∈ (resolvedTree c options).elements, ∀ d, dependency? options e = some d →
        d.importKind ≠ .sideEffect) →
      (BoundLast (componentRecords c options) c.className ↔
        c.className ∈ (libraryImports c).map Prod.fst ∨
          ∃ e ∈ (resolvedTree c options).elements,
            e.kind = c.className ∧ dependency? options e ≠ none)) ∧
    (∀ compiled, Generator.reactRouter.generate c options = .ok compiled →
      ∃ declared,
        (∀ file, file ∈ compiled.files ↔ file = File.ofParts c.fileName "js"
          (normalizeText (moduleText declared (application options.routes)))) ∧
        (boundNames declared).Nodup ∧
        ((moduleNames declared (application options.routes)).Nodup ↔
          ∀ r ∈ options.routes, r.componentName ≠ "App")) ∧
    (∀ name state, stateLine name state = .statement ("const [" ++
      ", ".intercalate (stateNames name) ++ "] = useState(" ++
        state.defaultValue.value.compact ++ ")")) ∧
    ((c.states.keys.flatMap stateNames).Nodup ↔
      (c.states.keys.map upperCamelCase).Nodup ∧
        ∀ x ∈ c.states.keys, ∀ y ∈ c.states.keys, x ≠ setter y) ∧
    ((functionNames c).Nodup ↔
      "props" ∉ c.states.keys ∧ (c.states.keys.flatMap stateNames).Nodup) :=
  ⟨fun _ => component_names, boundLast_componentRecords_iff, fun _ => application_names,
    stateLine_eq, nodup_stateNames_iff c.states.nodup_keys, nodup_functionNames_iff⟩

def tree : Component where
  name := "Tree"
  node := .element { kind := "container" } [.element { kind := "Tree" } []]

def treeOptions : Options where
  externals := Table.ofList [("Tree", tree)]
  routes := [⟨"/", "Home", "./views/home"⟩]

theorem scopes_nodup_iff_tree :
    (∃ compiled declared styles body,
      Generator.reactComponent.generate tree treeOptions = .ok compiled ∧
      MadeFrom tree treeOptions styles body ∧ (boundNames declared).Nodup ∧
      ¬ (moduleNames declared body).Nodup) ∧
    ∃ compiled declared, Generator.reactRouter.generate tree treeOptions = .ok compiled ∧
      (moduleNames declared (application treeOptions.routes)).Nodup := by
  obtain ⟨hcomponent, hclass, hrouter, -⟩ := scopes_nodup_iff tree treeOptions
  obtain ⟨compiled, hcompiled⟩ :
    ∃ compiled, Generator.reactComponent.generate tree treeOptions = .ok compiled := ⟨_, rfl⟩
  obtain ⟨compiled', hcompiled'⟩ :
    ∃ compiled, Generator.reactRouter.generate tree treeOptions = .ok compiled := ⟨_, rfl⟩
  have helements : (resolvedTree tree treeOptions).elements =
    [{ kind := "div", mappedFrom := some "container" }, { kind := "Tree" }] := rfl
  obtain ⟨declared, styles, body, hmade, -, hbound, hnames⟩ := hcomponent compiled hcompiled
  obtain ⟨declared', -, -, hnames'⟩ := hrouter compiled' hcompiled'
  have hused : BoundLast (componentRecords tree treeOptions) tree.className := by
    refine (hclass (by decide) ?_).2 (.inr ⟨{ kind := "Tree" }, ?_, rfl, ?_⟩)
    · rw [helements]
      intro e he d hd
      rcases List.mem_pair.1 he with rfl | rfl
      · cases hd
      · obtain rfl := Option.some.inj hd
        decide
    · simp [helements]
    · intro h
      cases h
  exact ⟨⟨compiled, declared, styles, body, hcompiled, hmade, hbound, fun h => hnames.1 h hused⟩,
    compiled', declared', hcompiled', hnames'.2 (by simp [treeOptions])⟩

def appOptions : Options where
  routes := [⟨"/", "App", "./views/app"⟩]

def counter : Component where
  name := "Counter"
  node := .element { kind := "container" } []
  states := Table.ofList [("Count", {}), ("count", {})]

/-- The application imports a page under its own name, and a component declares one setter twice. -/
theorem names_declared_twice :
    (∃ compiled declared, Generator.reactRouter.generate counter appOptions = .ok compiled ∧
      (∀ file, file ∈ compiled.files ↔ file = File.ofParts "counter" "js"
        (normalizeText (moduleText declared (application appOptions.routes)))) ∧
      ¬ (moduleNames declared (application appOptions.routes)).Nodup) ∧
    ∃ compiled, Generator.reactComponent.generate counter {} = .ok compiled ∧
      ¬ (counter.states.keys.flatMap stateNames).Nodup := by
  obtain ⟨compiled, hcompiled⟩ :
    ∃ compiled, Generator.reactRouter.generate counter appOptions = .ok compiled := ⟨_, rfl⟩
  obtain ⟨declared, hfiles, -, hnames⟩ := application_names hcompiled
  have hpage : ⟨"/", "App", "./views/app"⟩ ∈ appOptions.routes := List.mem_cons_self
  refine ⟨⟨compiled, declared, hcompiled, hfiles, fun h => hnames.1 h _ hpage rfl⟩, _, rfl, ?_⟩
  decide

end React

end Sitewright
