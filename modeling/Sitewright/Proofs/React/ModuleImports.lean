import Sitewright.Proofs.Dependency.Merging
import Sitewright.Proofs.Generator.Faults
import Sitewright.Proofs.Path.Joining
import Sitewright.Proofs.Style.Classes

/-!
# Imports of a module

The imports of a module are merged from the records of the style sheet of the project, of the
elements of the tree, of the library and of the component's own style sheet, in this order. What
the declarations of the module bind are the identifiers of these records, each once.
-/

namespace Sitewright

open Outcome

/-! ## Style sheets -/

theorem slash_mem_globalStyleSheet? {options : Options} {r : String × Dependency}
    (h : r ∈ options.globalStyleSheet?.toList) : '/' ∈ r.1.toList := by
  obtain ⟨paths, hpaths, hmem⟩ := options.exists_globalSheets
  rw [hpaths] at h
  obtain ⟨path, hpath, rfl⟩ := List.mem_map.1 h
  obtain ⟨sheet, -, -, rfl⟩ := (hmem path).1 hpath
  have hs : 's' ∈ (sheet.fileName ++ ".css").toList := by simp
  exact slash_mem_joinModulePath sheet.path hs (by decide) (by decide)

theorem Style.slash_mem_sheetChunks {fileName : String} {styles : List ClassStyle}
    {r : String × Dependency} (h : r ∈ (sheetChunks fileName styles).flatMap (·.dependencies)) :
    '/' ∈ r.1.toList := by
  obtain ⟨paths, hpaths, hmem⟩ := exists_ownSheets fileName styles
  rw [hpaths] at h
  obtain ⟨path, hpath, rfl⟩ := List.mem_map.1 h
  obtain ⟨-, rfl⟩ := (hmem path).1 hpath
  simp [sheetRecord]

/-! ## Trees -/

namespace Ui.Node

mutual
theorem elements_mapElements (f : Element → Element) : ∀ node : Node,
    (node.mapElements f).elements = node.elements.map f
  | .element e children => congrArg (f e :: ·) (elementsOfAll_mapAllElements f children)
  | .text _ => rfl
  | .dynamic _ => rfl

theorem elementsOfAll_mapAllElements (f : Element → Element) : ∀ nodes : List Node,
    elementsOfAll (mapAllElements f nodes) = (elementsOfAll nodes).map f
  | [] => rfl
  | node :: rest => by
    rw [mapAllElements, elementsOfAll, elementsOfAll, List.map_append,
      elements_mapElements f node, elementsOfAll_mapAllElements f rest]
end

end Ui.Node

namespace React

open Style
open Script (ImportClause)

variable {c : Component} {options : Options} {imports : Imports}

def resolvedTree (c : Component) (options : Options) : Ui.Node :=
  (Generator.reactComponent.mappingFor options).resolveTree c.node

theorem filterMap_of_classed {before after : List Ui.Element} {styles : List ClassStyle}
    (h : Classed before after styles) :
    after.filterMap (fun e => (dependency? options e).map fun d => (e.kind, d)) =
      before.filterMap fun e => (dependency? options e).map fun d => (e.kind, d) := by
  induction h with
  | nil => rfl
  | plain hplain rest ih => rw [List.filterMap_cons, List.filterMap_cons, ih]
  | @styled e s before after styles hstyled hstyle rest ih =>
    have hsame : dependency? options (withClass e s.className) = dependency? options e := rfl
    have hkind : (withClass e s.className).kind = e.kind := rfl
    rw [List.filterMap_cons, List.filterMap_cons, ih, hsame, hkind]

theorem imports_extractStyles (options : Options) (node : Ui.Node) :
    React.imports options (extractStyles node).1 = React.imports options node :=
  filterMap_of_classed (classed_extract [] node)

/-! ## Records -/

def componentRecords (c : Component) (options : Options) : List (String × Dependency) :=
  options.globalStyleSheet?.toList ++
    ((React.imports options (resolvedTree c options) ++ libraryImports c) ++
      (sheetChunks c.fileName (extractStyles (resolvedTree c options)).2).flatMap (·.dependencies))

def routerRecords (options : Options) : List (String × Dependency) :=
  routerImports ++ (options.routes.map fun r => (r.componentName, .localPath r.modulePath)) ++
    options.globalStyleSheet?.toList

variable {draft d : Draft}

theorem imports_component (h : component.run d = .ok draft) :
    d.imports.mergeAll (React.imports d.options d.component.node ++ libraryImports d.component) =
      .ok draft.imports := by
  simp only [component] at h
  split at h
  · cases h
  · obtain ⟨_, hmerged, h⟩ := bind_ok_iff.1 h
    obtain ⟨imports, himports, rfl⟩ := map_ok_iff.1 hmerged
    obtain rfl := Except.ok.inj h
    exact himports

theorem imports_router (h : router.run d = .ok draft) :
    d.imports.mergeAll (routerRecords d.options) = .ok draft.imports := by
  simp only [router] at h
  split at h
  · cases h
  · obtain ⟨_, hmerged, h⟩ := bind_ok_iff.1 h
    obtain ⟨imports, himports, rfl⟩ := map_ok_iff.1 hmerged
    obtain rfl := Except.ok.inj h
    exact himports

/-- The import chunks take the imports as the plugins before them have left them. -/
theorem allImports_importStatements {fileName name : String} {styles : List ClassStyle}
    {body : List Script.Node} (hname : name ∉ importChunks)
    (hchunks : d.chunks = ⟨sheetChunks fileName styles ++ [scriptChunk name body]⟩)
    (h : importStatements.run d = .ok draft) : draft.allImports =
      d.imports.mergeAll ((sheetChunks fileName styles).flatMap (·.dependencies)) := by
  obtain ⟨-, declared, -, -, rfl⟩ := run_importStatements_ok h
  rw [allImports_withImportChunks hname hchunks, Draft.allImports, hchunks,
    ChunkStore.dependencies, List.flatMap_append]
  exact congrArg _ (List.append_nil _)

theorem allImports_component
    (h : runPlugins Generator.reactComponent.plugins
      (Generator.reactComponent.start c options) = .ok draft) :
    draft.allImports = Imports.empty.mergeAll (componentRecords c options) := by
  rw [Generator.plugins_reactComponent, runPlugins_append] at h
  obtain ⟨d, hd, h⟩ := bind_ok_iff.1 h
  rw [runPlugins_singleton] at h
  rw [runPlugins_cons] at hd
  obtain ⟨d₁, hd₁, hd⟩ := bind_ok_iff.1 hd
  rw [runPlugins_singleton] at hd
  -- the plugin of the style sheet never fails, so that the draft after it is known
  obtain ⟨imports₁, -, hsheet⟩ := run_componentSheet
    (d := Generator.reactComponent.start c options) rfl Imports.selfNamed_empty
  obtain rfl := Except.ok.inj (hsheet.symm.trans hd₁)
  have hglobal : Imports.empty.mergeAll options.globalStyleSheet?.toList = .ok imports₁ :=
    imports_componentSheet hsheet
  have hown : imports₁.mergeAll (React.imports options (extractStyles (resolvedTree c options)).1 ++
      libraryImports c) = .ok d.imports := imports_component hd
  rw [imports_extractStyles] at hown
  obtain ⟨root, imports₂, -, rfl⟩ := run_component_ok hd
  rw [allImports_importStatements (by decide) (addAll_script rfl) h, componentRecords,
    Imports.mergeAll_append_of_ok hglobal, Imports.mergeAll_append_of_ok hown]
  rfl

theorem allImports_router
    (h : runPlugins Generator.reactRouter.plugins
      (Generator.reactRouter.start c options) = .ok draft) :
    draft.allImports = Imports.empty.mergeAll (routerRecords options) := by
  rw [Generator.plugins_reactRouter, runPlugins_append] at h
  obtain ⟨d, hd, h⟩ := bind_ok_iff.1 h
  rw [runPlugins_singleton] at h hd
  have hown : Imports.empty.mergeAll (routerRecords options) = .ok d.imports := imports_router hd
  obtain ⟨styles, body, ⟨rfl, -⟩, hchunks⟩ := runPlugins_router_ok (runPlugins_singleton _ _ ▸ hd)
  rw [allImports_importStatements (by decide) hchunks h, hown]
  rfl

/-! ## Identifiers -/

variable {x : String} {d : Dependency}

def allDeclared (declared : DependencyKind → List (String × ImportClause)) :
    List (String × ImportClause) :=
  declared .library ++ declared .package ++ declared .localPath

theorem mem_allDeclared_iff {declared : DependencyKind → List (String × ImportClause)}
    {i : String × ImportClause} : i ∈ allDeclared declared ↔ ∃ kind, i ∈ declared kind := by
  rw [allDeclared, List.mem_append, List.mem_append]
  constructor
  · rintro ((hi | hi) | hi)
    · exact ⟨.library, hi⟩
    · exact ⟨.package, hi⟩
    · exact ⟨.localPath, hi⟩
  · rintro ⟨kind, hi⟩
    cases kind with
    | library => exact .inl (.inl hi)
    | package => exact .inl (.inr hi)
    | localPath => exact .inr hi

def boundNames (declared : List (String × ImportClause)) : List String :=
  declared.flatMap (·.2.bound)

theorem perm_records_by_kind (records : List (String × Dependency)) :
    (records.filter (·.2.kind = .library) ++ records.filter (·.2.kind = .package) ++
      records.filter (·.2.kind = .localPath)).Perm records := by
  induction records with
  | nil => exact .refl _
  | cons r rest ih =>
    cases hkind : r.2.kind with
    | library => simpa [hkind] using ih
    | package =>
      have hmove : (rest.filter (·.2.kind = .library) ++ r :: (rest.filter (·.2.kind = .package) ++
          rest.filter (·.2.kind = .localPath))).Perm (r :: rest) :=
        List.perm_middle.trans (.cons r (by simpa using ih))
      simpa [hkind] using hmove
    | localPath =>
      have hmove : ((rest.filter (·.2.kind = .library) ++ rest.filter (·.2.kind = .package)) ++
          r :: rest.filter (·.2.kind = .localPath)).Perm (r :: rest) :=
        List.perm_middle.trans (.cons r ih)
      simpa [hkind] using hmove

section Declared

variable {declared : DependencyKind → List (String × ImportClause)}
  (h : ∀ kind, Declares kind imports (declared kind))
include h

theorem boundNames_perm : (boundNames (allDeclared declared)).Perm
    ((imports.records.entries.filter (·.2.importKind ≠ .sideEffect)).map Prod.fst) := by
  have hkinds : (boundNames (allDeclared declared)).Perm
      (((recordsOf .library imports ++ recordsOf .package imports ++
        recordsOf .localPath imports).filter (·.2.importKind ≠ .sideEffect)).map Prod.fst) := by
    rw [boundNames, allDeclared, List.flatMap_append, List.flatMap_append, List.filter_append,
      List.filter_append, List.map_append, List.map_append]
    exact ((h .library).bound_once.append (h .package).bound_once).append
      (h .localPath).bound_once
  exact hkinds.trans (((perm_records_by_kind imports.records.entries).filter _).map _)

theorem nodup_boundNames : (boundNames (allDeclared declared)).Nodup := by
  rw [(boundNames_perm h).nodup_iff]
  exact imports.records.nodup_keys.sublist (List.filter_sublist.map _)

theorem mem_boundNames_iff : x ∈ boundNames (allDeclared declared) ↔
    ∃ d, imports.get? x = some d ∧ d.importKind ≠ .sideEffect := by
  rw [(boundNames_perm h).mem_iff, List.mem_map]
  constructor
  · rintro ⟨⟨x, d⟩, hr, rfl⟩
    obtain ⟨hr, hway⟩ := List.mem_filter.1 hr
    exact ⟨d, Table.mem_entries_iff.1 hr, by simpa using hway⟩
  · rintro ⟨d, hd, hway⟩
    exact ⟨(x, d), List.mem_filter.2 ⟨Table.mem_entries_iff.2 hd, by simpa using hway⟩, rfl⟩

end Declared

/-- The last record of an identifier binds it. -/
def BoundLast (records : List (String × Dependency)) (x : String) : Prop :=
  ∃ d, Imports.lastUnder x records = some d ∧ d.importKind ≠ .sideEffect

theorem mem_boundNames_iff_boundLast {records : List (String × Dependency)}
    {declared : DependencyKind → List (String × ImportClause)}
    (himports : Imports.empty.mergeAll records = .ok imports)
    (h : ∀ kind, Declares kind imports (declared kind)) :
    x ∈ boundNames (allDeclared declared) ↔ BoundLast records x := by
  rw [mem_boundNames_iff h, BoundLast]
  simp only [Imports.get?_of_mergeAll_empty himports]

theorem boundLast_of_mem {records : List (String × Dependency)}
    (hways : ∀ d, (x, d) ∈ records → d.importKind ≠ .sideEffect) :
    BoundLast records x ↔ ∃ d, (x, d) ∈ records := by
  constructor
  · rintro ⟨d, hd, -⟩
    exact ⟨d, Imports.mem_of_lastUnder hd⟩
  · rintro ⟨d, hd⟩
    obtain ⟨last, hlast⟩ := Imports.exists_lastUnder hd
    exact ⟨last, hlast, hways last (Imports.mem_of_lastUnder hlast)⟩

theorem mem_imports_iff {node : Ui.Node} : (x, d) ∈ React.imports options node ↔
    ∃ e ∈ node.elements, e.kind = x ∧ dependency? options e = some d := by
  rw [React.imports, List.mem_filterMap]
  refine exists_congr fun e => and_congr_right fun _ => ?_
  rw [Option.map_eq_some_iff]
  constructor
  · rintro ⟨d, hd, heq⟩
    obtain ⟨rfl, rfl⟩ := Prod.mk.inj heq
    exact ⟨rfl, hd⟩
  · rintro ⟨rfl, hd⟩
    exact ⟨d, hd, rfl⟩

theorem importKind_libraryImports (h : (x, d) ∈ libraryImports c) :
    d.importKind ≠ .sideEffect := by
  rw [libraryImports] at h
  rcases List.mem_cons.1 h with heq | h
  · obtain ⟨-, rfl⟩ := Prod.mk.inj heq
    decide
  · split at h
    · cases h
    · obtain ⟨-, rfl⟩ := Prod.mk.inj (List.mem_singleton.1 h)
      decide

/-- An identifier without a slash is no style sheet. -/
theorem mem_componentRecords_iff (hslash : '/' ∉ x.toList) : (x, d) ∈ componentRecords c options ↔
    (∃ e ∈ (resolvedTree c options).elements, e.kind = x ∧ dependency? options e = some d) ∨
      (x, d) ∈ libraryImports c := by
  rw [componentRecords, List.mem_append, List.mem_append, List.mem_append, mem_imports_iff]
  constructor
  · rintro (hmem | hmem | hmem)
    · exact absurd (slash_mem_globalStyleSheet? hmem) hslash
    · exact hmem
    · exact absurd (slash_mem_sheetChunks hmem) hslash
  · exact fun hmem => .inr (.inl hmem)

/-- Without imports for their effects, a component binds the names of the library and of the
elements that come from elsewhere. -/
theorem boundLast_componentRecords_iff (hslash : '/' ∉ x.toList)
    (hways : ∀ e ∈ (resolvedTree c options).elements, ∀ d, dependency? options e = some d →
      d.importKind ≠ .sideEffect) :
    BoundLast (componentRecords c options) x ↔ x ∈ (libraryImports c).map Prod.fst ∨
      ∃ e ∈ (resolvedTree c options).elements, e.kind = x ∧ dependency? options e ≠ none := by
  have hbinds : ∀ d, (x, d) ∈ componentRecords c options → d.importKind ≠ .sideEffect := by
    intro d hd
    rcases (mem_componentRecords_iff hslash).1 hd with ⟨e, he, -, hd⟩ | hd
    · exact hways e he d hd
    · exact importKind_libraryImports hd
  rw [boundLast_of_mem hbinds]
  simp only [mem_componentRecords_iff hslash, exists_or, List.mem_map, Option.ne_none_iff_exists']
  constructor
  · rintro (⟨d, e, he, hkind, hd⟩ | ⟨d, hd⟩)
    · exact .inr ⟨e, he, hkind, d, hd⟩
    · exact .inl ⟨(x, d), hd, rfl⟩
  · rintro (⟨⟨y, d⟩, hd, rfl⟩ | ⟨e, he, hkind, d, hd⟩)
    · exact .inr ⟨d, hd⟩
    · exact .inl ⟨d, e, he, hkind, hd⟩

/-! ## Modules -/

variable {compiled : Compiled}

/-- The script of a component declares the merged records and has the component after them. -/
theorem exists_component_module
    (h : Generator.reactComponent.generate c options = .ok compiled) :
    ∃ imports declared styles body,
      Imports.empty.mergeAll (componentRecords c options) = .ok imports ∧
      (∀ kind, Declares kind imports (declared kind)) ∧ MadeFrom c options styles body ∧
      ∀ file, file ∈ compiled.files ∧ file.extension = some "js" ↔
        file = File.ofParts c.fileName "js"
          (normalizeText (moduleText (allDeclared declared) body)) := by
  obtain ⟨draft, imports, text, styles, body, hdraft, himports, hmade, hmodule, hmem⟩ :=
    generate_module_ok rfl (by decide) Generator.plugins_reactComponent
      (fun _ => runPlugins_component_ok) h
  obtain ⟨declared, hdeclares, rfl⟩ := hmodule
  exact ⟨imports, declared, styles, body, (allImports_component hdraft).symm.trans himports,
    hdeclares, hmade, Generator.mem_extension_iff (by decide) hmem⟩

theorem exists_router_module (h : Generator.reactRouter.generate c options = .ok compiled) :
    ∃ imports declared, Imports.empty.mergeAll (routerRecords options) = .ok imports ∧
      (∀ kind, Declares kind imports (declared kind)) ∧
      ∀ file, file ∈ compiled.files ↔ file = File.ofParts c.fileName "js"
        (normalizeText (moduleText (allDeclared declared) (application options.routes))) := by
  obtain ⟨draft, imports, text, styles, body, hdraft, himports, ⟨rfl, rfl⟩, hmodule, hmem⟩ :=
    generate_module_ok rfl (by decide) Generator.plugins_reactRouter
      (fun _ => runPlugins_router_ok) h
  obtain ⟨declared, hdeclares, rfl⟩ := hmodule
  refine ⟨imports, declared, (allImports_router hdraft).symm.trans himports, hdeclares, ?_⟩
  intro file
  refine (hmem file).trans ?_
  simp [allDeclared]

end React

end Sitewright
