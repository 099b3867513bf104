import Sitewright.Proofs.Dependency.Versions
import Sitewright.Proofs.React.ModuleImports

/-!
# Packages of a module

What a module imports and the packages that it asks for come from the same collected imports. The
plugins make the declarations from them, and the versions are read off afterwards.
-/

namespace Sitewright.React

open Outcome
open Script (ImportClause)

variable {g : Generator} {c : Component} {options : Options} {compiled : Compiled}
  {kind : DependencyKind} {imports : Imports} {declared : List (String × ImportClause)}
  {source : String}

theorem Declares.count_eq_one (h : Declares kind imports declared)
    (hsource : ∃ x d, imports.get? x = some d ∧ d.kind = kind ∧ d.source = source) :
    (declared.map Prod.fst).count source = 1 :=
  List.count_eq_one_of_mem h.nodup_sources ((h.mem_sources_iff source).2 hsource)

theorem Declares.count_eq_zero (h : Declares kind imports declared)
    (hsource : ¬ ∃ x d, imports.get? x = some d ∧ d.kind = kind ∧ d.source = source) :
    (declared.map Prod.fst).count source = 0 :=
  List.count_eq_zero_of_not_mem fun hmem => hsource ((h.mem_sources_iff source).1 hmem)

def ImportsNothing (body : List Script.Node) : Prop :=
  ∀ source clause, .importing source clause ∉ body

theorem importsNothing_moduleBody (c : Component) (root : Markup.Element) :
    ImportsNothing (moduleBody c root) := by
  simp [ImportsNothing, moduleBody]

theorem importsNothing_application (routes : List Route) : ImportsNothing (application routes) := by
  simp [ImportsNothing, application]

/-- The script of a generation declares its imports and has statements after them which import
nothing, and its versions are those of the same imports. -/
theorem exists_script (hg : g = .reactComponent ∨ g = .reactRouter)
    (h : g.generate c options = .ok compiled) : ∃ draft imports declared body,
      runPlugins g.plugins (g.start c options) = .ok draft ∧ draft.allImports = .ok imports ∧
      compiled.versions = imports.packageVersions ∧
      (∀ kind, Declares kind imports (declared kind)) ∧ ImportsNothing body ∧
      ∀ file, file ∈ compiled.files ∧ file.extension = some "js" ↔
        file = File.ofParts c.fileName "js"
          (normalizeText (moduleText (allDeclared declared) body)) := by
  obtain ⟨-, draft, imports, files, hdraft, himports, -, hcompiled⟩ := Generator.generate_ok_iff.1 h
  have hversions : compiled.versions = imports.packageVersions := by rw [hcompiled]
  rcases hg with rfl | rfl
  · obtain ⟨draft', imports', text, styles, body, hdraft', himports', ⟨-, root, -, rfl⟩,
      ⟨declared, hdeclares, rfl⟩, hmem⟩ := generate_module_ok rfl (by decide)
        Generator.plugins_reactComponent (fun _ => runPlugins_component_ok) h
    obtain rfl := Except.ok.inj (hdraft.symm.trans hdraft')
    obtain rfl := Except.ok.inj (himports.symm.trans himports')
    exact ⟨draft, imports, declared, _, hdraft, himports, hversions, hdeclares,
      importsNothing_moduleBody c root, Generator.mem_extension_iff (by decide) hmem⟩
  · obtain ⟨draft', imports', text, styles, body, hdraft', himports', ⟨-, rfl⟩,
      ⟨declared, hdeclares, rfl⟩, hmem⟩ := generate_module_ok rfl (by decide)
        Generator.plugins_reactRouter (fun _ => runPlugins_router_ok) h
    obtain rfl := Except.ok.inj (hdraft.symm.trans hdraft')
    obtain rfl := Except.ok.inj (himports.symm.trans himports')
    exact ⟨draft, imports, declared, _, hdraft, himports, hversions, hdeclares,
      importsNothing_application _, Generator.mem_extension_iff (by decide) hmem⟩

/-- The packages of a generation are the sources of the published records among its final imports,
each with the version of the greatest identifier that carries one. Its script declares each of them
once for every kind under which the imports have it. -/
theorem packages_agree_with_declarations (hg : g = .reactComponent ∨ g = .reactRouter)
    (h : g.generate c options = .ok compiled) :
    ∃ draft imports, ∃ declared : DependencyKind → List (String × ImportClause), ∃ body,
      runPlugins g.plugins (g.start c options) = .ok draft ∧ draft.allImports = .ok imports ∧
      (∀ file, file ∈ compiled.files ∧ file.extension = some "js" ↔
        file = File.ofParts c.fileName "js"
          (normalizeText (moduleText (allDeclared declared) body))) ∧
      ImportsNothing body ∧
      (∀ source, source ∈ compiled.versions.keys ↔
        ∃ x d version, imports.get? x = some d ∧ d.Publishes source version) ∧
      (∀ source ∈ compiled.versions.keys, ∀ kind,
        ((∃ x d, imports.get? x = some d ∧ d.kind = kind ∧ d.source = source) →
          ((declared kind).map Prod.fst).count source = 1) ∧
        ((¬ ∃ x d, imports.get? x = some d ∧ d.kind = kind ∧ d.source = source) →
          ((declared kind).map Prod.fst).count source = 0)) ∧
      ∀ source version, compiled.versions.get? source = some version ↔
        ∃ x d, imports.get? x = some d ∧ d.Publishes source version ∧
          ∀ y e v, imports.get? y = some e → e.Publishes source v → y ≤ x := by
  obtain ⟨draft, imports, declared, body, hdraft, himports, hversions, hdeclares, hbody, hfile⟩ :=
    exists_script hg h
  refine ⟨draft, imports, declared, body, hdraft, himports, hfile, hbody, fun source => ?_,
    fun source _ kind => ⟨(hdeclares kind).count_eq_one, (hdeclares kind).count_eq_zero⟩,
    fun source version => ?_⟩
  · rw [hversions, Imports.mem_keys_packageVersions_iff]
  · rw [hversions, Imports.get?_packageVersions_iff]

def kitElement (kind version : String) : Ui.Node :=
  .element
    { kind
      dependency := some
        { kind := .package, source := "ui-kit", version := some version, importKind := .named } } []

def toolbar : Component where
  name := "Toolbar"
  node := .element { kind := "container" } [kitElement "Zoom" "1.0.0", kitElement "Align" "2.0.0"]

theorem packages_agree_with_declarations_toolbar :
    ∃ compiled, ∃ imports : Imports, ∃ declared : DependencyKind → List (String × ImportClause),
      Generator.reactComponent.generate toolbar {} = .ok compiled ∧
      compiled.versions.get? "ui-kit" = some "1.0.0" ∧
      ∃ x d, imports.get? x = some d ∧ d.Publishes "ui-kit" "1.0.0" ∧
        (∀ y e v, imports.get? y = some e → e.Publishes "ui-kit" v → y ≤ x) ∧
        ((declared d.kind).map Prod.fst).count "ui-kit" = 1 := by
  have hversion : (Generator.reactComponent.generate toolbar {}).toOption.bind
      (·.versions.get? "ui-kit") = some "1.0.0" := by decide +kernel
  obtain ⟨compiled, hcompiled, hget⟩ := Option.bind_eq_some_iff.1 hversion
  have hcompiled := toOption_eq_some_iff.1 hcompiled
  obtain ⟨-, imports, declared, -, -, -, -, -, -, hcount, hversions⟩ :=
    packages_agree_with_declarations (.inl rfl) hcompiled
  obtain ⟨x, d, hd, hpublishes, hgreatest⟩ := (hversions _ _).1 hget
  have hkey : "ui-kit" ∈ compiled.versions.keys := Table.mem_keys_iff.2 ⟨_, hget⟩
  exact ⟨compiled, imports, declared, hcompiled, hget, x, d, hd, hpublishes, hgreatest,
    (hcount _ hkey d.kind).1 ⟨x, d, hd, rfl, hpublishes.source⟩⟩

end Sitewright.React
