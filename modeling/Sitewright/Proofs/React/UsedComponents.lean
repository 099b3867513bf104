import Sitewright.Proofs.React.ModuleImports

/-!
# Imports of used components

An element that comes from elsewhere leaves a record of its kind. Later records of the kind may
replace it, but all of them name one module, and this module is declared with the kind among its
bindings. So the module of a component imports every component that it uses, once, and from the
place that the element names.
-/

namespace Sitewright

theorem Mapping.dependency_resolveElement {m : Mapping} {e : Ui.Element} {d : Dependency}
    (h : (m.resolveElement e).dependency = some d) :
    e.dependency = some d ∨
      ∃ mapped, m.elements.get? e.kind = some mapped ∧ mapped.dependency = some d := by
  rw [resolveElement] at h
  split at h
  · exact .inl h
  · split at h
    · next mapped hmapped =>
      rcases Option.or_eq_some_iff.1 h with h | ⟨-, h⟩
      · exact .inr ⟨mapped, hmapped, h⟩
      · exact .inl h
    · split at h
      · exact .inl h
      · exact .inl h

namespace React

open Outcome
open Script (ImportClause)

variable {c : Component} {options : Options} {compiled : Compiled} {e : Ui.Element}
  {d : Dependency} {x source : String}

/-- Where an element of a resolved tree is to be imported from. -/
inductive ImportedFrom (options : Options) (e : Ui.Element) : String → Prop
  | published {d : Dependency} (hd : e.dependency = some d) (hkind : d.kind ≠ .localPath) :
      ImportedFrom options e d.source
  | localPath {d : Dependency} (hd : e.dependency = some d) (hkind : d.kind = .localPath)
      (hsource : d.source ≠ "") :
      ImportedFrom options e (joinModulePath options.localPrefix d.source)
  | unnamed {d : Dependency} (hd : e.dependency = some d) (hkind : d.kind = .localPath)
      (hsource : d.source = "") :
      ImportedFrom options e (joinModulePath options.localPrefix (dashCase e.kind))
  | external {c : Component} (hd : e.dependency = none)
      (hc : options.externals.get? e.kind = some c) :
      ImportedFrom options e (joinModulePath options.localPrefix c.modulePath)

/-- An element whose kind stands for a component from elsewhere. -/
def IsUsed (options : Options) (e : Ui.Element) : Prop :=
  e.dependency ≠ none ∨ options.externals.contains e.kind = true

/-! ## The record of an element -/

theorem dependency?_of_published (hd : e.dependency = some d) (hkind : d.kind ≠ .localPath) :
    dependency? options e = some d := by
  rw [dependency?, hd]
  cases h : d.kind with
  | library => simp [h]
  | package => simp [h]
  | localPath => exact absurd h hkind

def localFile (e : Ui.Element) (d : Dependency) : String :=
  if d.source.isEmpty then dashCase e.kind else d.source

theorem localFile_of_eq (hsource : d.source = "") : localFile e d = dashCase e.kind :=
  if_pos (by simp [hsource])

theorem localFile_of_ne (hsource : d.source ≠ "") : localFile e d = d.source :=
  if_neg (by simpa using hsource)

theorem dependency?_of_localPath (hd : e.dependency = some d) (hkind : d.kind = .localPath) :
    dependency? options e =
      some { d with source := joinModulePath options.localPrefix (localFile e d) } := by
  rw [dependency?, hd]
  simp [hkind, localFile]

theorem dependency?_of_none (options : Options) (hd : e.dependency = none) :
    dependency? options e = (options.externals.get? e.kind).map fun c =>
      .localPath (joinModulePath options.localPrefix c.modulePath) := by
  rw [dependency?, hd]

/-- What the record of an element can be. -/
theorem dependency?_some (h : dependency? options e = some d) :
    (e.dependency = some d ∧ d.kind ≠ .localPath) ∨
    (∃ own, e.dependency = some own ∧ own.kind = .localPath ∧
      d = { own with source := joinModulePath options.localPrefix (localFile e own) }) ∨
    (e.dependency = none ∧ ∃ c, options.externals.get? e.kind = some c ∧
      d = .localPath (joinModulePath options.localPrefix c.modulePath)) := by
  cases hd : e.dependency with
  | some own =>
    by_cases hkind : own.kind = .localPath
    · rw [dependency?_of_localPath hd hkind] at h
      exact .inr (.inl ⟨own, rfl, hkind, (Option.some.inj h).symm⟩)
    · rw [dependency?_of_published hd hkind] at h
      obtain rfl := Option.some.inj h
      exact .inl ⟨rfl, hkind⟩
  | none =>
    rw [dependency?_of_none options hd] at h
    obtain ⟨c, hc, rfl⟩ := Option.map_eq_some_iff.1 h
    exact .inr (.inr ⟨rfl, c, hc, rfl⟩)

theorem dependency?_ne_none_iff : dependency? options e ≠ none ↔ IsUsed options e := by
  cases hd : e.dependency with
  | some d =>
    have hused : IsUsed options e := .inl (by simp [hd])
    by_cases hkind : d.kind = .localPath
    · simp [dependency?_of_localPath hd hkind, hused]
    · simp [dependency?_of_published hd hkind, hused]
  | none =>
    have hnone : (options.externals.get? e.kind).isSome = true ↔ IsUsed options e := by
      simp [IsUsed, hd, Table.contains]
    rw [← hnone, dependency?_of_none options hd, ← Option.isSome_iff_ne_none, Option.isSome_map]

/-- The record of an element names the place that the element is to be imported from. -/
theorem importedFrom_iff : ImportedFrom options e source ↔
    ∃ d, dependency? options e = some d ∧ d.source = source := by
  constructor
  · intro h
    cases h with
    | published hd hkind => exact ⟨_, dependency?_of_published hd hkind, rfl⟩
    | localPath hd hkind hsource =>
      exact ⟨_, dependency?_of_localPath hd hkind, by rw [localFile_of_ne hsource]⟩
    | unnamed hd hkind hsource =>
      exact ⟨_, dependency?_of_localPath hd hkind, by rw [localFile_of_eq hsource]⟩
    | external hd hc =>
      have hrecord := dependency?_of_none options hd
      rw [hc] at hrecord
      exact ⟨_, hrecord, rfl⟩
  · rintro ⟨d, hrecord, rfl⟩
    rcases dependency?_some hrecord with ⟨hd, hkind⟩ | ⟨own, hd, hkind, rfl⟩ | ⟨hd, c, hc, rfl⟩
    · exact .published hd hkind
    · by_cases hsource : own.source = ""
      · rw [localFile_of_eq hsource]
        exact .unnamed hd hkind hsource
      · rw [localFile_of_ne hsource]
        exact .localPath hd hkind hsource
    · exact .external hd hc

theorem ImportedFrom.unique {source' : String} (h : ImportedFrom options e source)
    (h' : ImportedFrom options e source') : source = source' := by
  obtain ⟨d, hd, rfl⟩ := importedFrom_iff.1 h
  obtain ⟨d', hd', rfl⟩ := importedFrom_iff.1 h'
  rw [Option.some.inj (hd.symm.trans hd')]

theorem importKind_dependency? (hown : ∀ d, e.dependency = some d → d.importKind ≠ .sideEffect)
    (h : dependency? options e = some d) : d.importKind ≠ .sideEffect := by
  rcases dependency?_some h with ⟨hd, -⟩ | ⟨own, hd, -, rfl⟩ | ⟨-, c, -, rfl⟩
  · exact hown d hd
  · exact hown own hd
  · exact nofun

/-! ## Declarations -/

theorem Declares.exists_binding {kind : DependencyKind} {imports : Imports}
    {declared : List (String × ImportClause)} (h : Declares kind imports declared)
    (hd : imports.get? x = some d) (hkind : d.kind = kind) (hway : d.importKind ≠ .sideEffect) :
    ∃ clause, (d.source, clause) ∈ declared ∧ x ∈ clause.bound := by
  obtain ⟨⟨source, clause⟩, hmem, rfl⟩ :=
    List.mem_map.1 ((h.mem_sources_iff d.source).2 ⟨x, d, hd, hkind, rfl⟩)
  refine ⟨clause, hmem, ?_⟩
  rw [ImportClause.bound, List.mem_append, List.mem_append, Option.mem_toList, Option.mem_toList]
  cases hd' : d.importKind with
  | default => exact .inl (.inl ((h.default_iff _ _ hmem x).2 ⟨d, hd, hkind, rfl, hd'⟩))
  | namespaceImport => exact .inl (.inr ((h.namespace_iff _ _ hmem x).2 ⟨d, hd, hkind, rfl, hd'⟩))
  | named =>
    have hn := (h.named_iff _ _ hmem ⟨d.exportedName.getD x, x⟩).2 ⟨d, hd, ⟨hkind, rfl, hd'⟩, rfl⟩
    exact .inr (List.mem_map_of_mem hn)
  | sideEffect => exact absurd hd' hway

theorem filter_of_nodup_boundNames {declared : List (String × ImportClause)}
    {i : String × ImportClause} (hnodup : (boundNames declared).Nodup) (hi : i ∈ declared)
    (hx : x ∈ i.2.bound) : declared.filter (x ∈ ·.2.bound) = [i] := by
  induction declared with
  | nil => cases hi
  | cons j rest ih =>
    obtain ⟨-, hrest, hapart⟩ := List.nodup_append.1 hnodup
    rcases List.mem_cons.1 hi with rfl | hi
    · have hnone : rest.filter (x ∈ ·.2.bound) = [] := by
        rw [List.filter_eq_nil_iff]
        intro k hk hxk
        exact hapart x hx x (List.mem_flatMap.2 ⟨k, hk, by simpa using hxk⟩) rfl
      rw [List.filter_cons_of_pos (by simpa using hx), hnone]
    · have hxj : x ∉ j.2.bound := fun hxj => hapart x hxj x (List.mem_flatMap.2 ⟨i, hi, hx⟩) rfl
      rw [List.filter_cons_of_neg (by simpa using hxj)]
      exact ih hrest hi

/-- Every component that a component uses is bound by one declaration of its module, whose source is
the place that the element names. -/
theorem used_components_imported (h : Generator.reactComponent.generate c options = .ok compiled)
    (helements : ∀ e ∈ c.node.elements, ∀ d, e.dependency = some d → d.importKind ≠ .sideEffect)
    (hmapping : ∀ kind mapped d,
      (Generator.reactComponent.mappingFor options).elements.get? kind = some mapped →
        mapped.dependency = some d → d.importKind ≠ .sideEffect)
    (hslash : ∀ e ∈ (resolvedTree c options).elements, '/' ∉ e.kind.toList) :
    ∃ declared styles body, MadeFrom c options styles body ∧
      (∀ file, file ∈ compiled.files ∧ file.extension = some "js" ↔
        file = File.ofParts c.fileName "js" (normalizeText (moduleText declared body))) ∧
      ∀ e ∈ (resolvedTree c options).elements, IsUsed options e →
        ∃ source clause, ImportedFrom options e source ∧
          declared.filter (e.kind ∈ ·.2.bound) = [(source, clause)] := by
  obtain ⟨imports, declared, styles, body, himports, hdeclares, hmade, hfiles⟩ :=
    exists_component_module h
  have hways : ∀ e ∈ (resolvedTree c options).elements, ∀ d, dependency? options e = some d →
      d.importKind ≠ .sideEffect := by
    intro e he d hd
    rw [resolvedTree, Mapping.resolveTree, Ui.Node.elements_mapElements] at he
    obtain ⟨original, horiginal, rfl⟩ := List.mem_map.1 he
    refine importKind_dependency? (fun own hown => ?_) hd
    rcases Mapping.dependency_resolveElement hown with hown | ⟨mapped, hmapped, hown⟩
    · exact helements original horiginal own hown
    · exact hmapping _ mapped own hmapped hown
  refine ⟨allDeclared declared, styles, body, hmade, hfiles, fun e he hused => ?_⟩
  obtain ⟨d, hd⟩ := Option.ne_none_iff_exists'.1 (dependency?_ne_none_iff.2 hused)
  -- the last record of the kind may be another one, but it names the same module
  obtain ⟨last, hlast, hway⟩ := (boundLast_componentRecords_iff (hslash e he) hways).2
    (.inr ⟨e, he, rfl, by simp [hd]⟩)
  have hget : imports.get? e.kind = some last :=
    (Imports.get?_of_mergeAll_empty himports e.kind).trans hlast
  have hmem : (e.kind, d) ∈ componentRecords c options :=
    (mem_componentRecords_iff (hslash e he)).2 (.inl ⟨e, he, rfl, hd⟩)
  have hsource : last.source = d.source := Imports.source_of_mergeAll himports hmem hget
  obtain ⟨clause, hclause, hbound⟩ := (hdeclares last.kind).exists_binding hget rfl hway
  have hall : (last.source, clause) ∈ allDeclared declared :=
    mem_allDeclared_iff.2 ⟨last.kind, hclause⟩
  refine ⟨last.source, clause, importedFrom_iff.2 ⟨d, hd, hsource.symm⟩, ?_⟩
  exact filter_of_nodup_boundNames (nodup_boundNames hdeclares) hall hbound

def gallery : Component where
  name := "Gallery"
  node := .element { kind := "container" }
    [.element { kind := "container" } [.element { kind := "navlink" } []],
      .element { kind := "BarChart", dependency := some (.localPath "") } [],
      .element { kind := "Badge" } []]

def galleryOptions : Options where
  localPrefix? := some "../components"
  externals := Table.ofList [("Badge", { name := "Badge", node := .text "" })]

theorem used_components_imported_gallery :
    ∃ compiled declared body link chart badge,
      Generator.reactComponent.generate gallery galleryOptions = .ok compiled ∧
      File.ofParts "gallery" "js" (normalizeText (moduleText declared body)) ∈ compiled.files ∧
      declared.filter ("Link" ∈ ·.2.bound) = [("react-router-dom", link)] ∧
      declared.filter ("BarChart" ∈ ·.2.bound) = [("../components/bar-chart", chart)] ∧
      declared.filter ("Badge" ∈ ·.2.bound) = [("../components/badge", badge)] := by
  obtain ⟨compiled, hcompiled⟩ :
      ∃ compiled, Generator.reactComponent.generate gallery galleryOptions = .ok compiled := by
    have hok : (Generator.reactComponent.generate gallery galleryOptions).isOk = true := by
      decide +kernel
    rcases exists_ok_or_error (Generator.reactComponent.generate gallery galleryOptions) with
      h | ⟨f, hf⟩
    · exact h
    · rw [hf] at hok
      cases hok
  have helements : ∀ e ∈ gallery.node.elements, ∀ d, e.dependency = some d →
      d.importKind ≠ .sideEffect := by
    have hall : ∀ e ∈ gallery.node.elements,
        e.dependency.all (fun d => decide (d.importKind ≠ .sideEffect)) = true := by decide
    intro e he d hd
    simpa [hd] using hall e he
  have hmapping : ∀ kind mapped d,
      (Generator.reactComponent.mappingFor galleryOptions).elements.get? kind = some mapped →
        mapped.dependency = some d → d.importKind ≠ .sideEffect := by
    have hall : ∀ m ∈ Mapping.react.elements.values,
        m.dependency.all (fun d => decide (d.importKind ≠ .sideEffect)) = true := by decide
    intro kind mapped d hmapped hd
    simpa [hd] using hall mapped (Table.mem_values_of_get? hmapped)
  have htree : (resolvedTree gallery galleryOptions).elements =
      [{ kind := "div", mappedFrom := some "container" },
        { kind := "div", mappedFrom := some "container" },
        { kind := "Link", mappedFrom := some "navlink",
          dependency := some (Dependency.library "react-router-dom" Mapping.routerVersion).named },
        { kind := "BarChart", dependency := some (.localPath "") }, { kind := "Badge" }] := rfl
  have hslash : ∀ e ∈ (resolvedTree gallery galleryOptions).elements, '/' ∉ e.kind.toList := by
    rw [htree]
    decide
  obtain ⟨declared, styles, body, -, hfiles, hused⟩ :=
    used_components_imported hcompiled helements hmapping hslash
  rw [htree] at hused
  obtain ⟨_, link, hlink, hlinks⟩ := hused _ (.tail _ (.tail _ (.head _))) (.inl nofun)
  obtain ⟨_, chart, hchart, hcharts⟩ := hused _ (.tail _ (.tail _ (.tail _ (.head _)))) (.inl nofun)
  obtain ⟨_, badge, hbadge, hbadges⟩ :=
    hused _ (.tail _ (.tail _ (.tail _ (.tail _ (.head _))))) (.inr rfl)
  obtain rfl := hlink.unique (.published rfl (by decide))
  obtain rfl := hchart.unique (.unnamed rfl rfl rfl)
  obtain rfl := hbadge.unique (.external rfl rfl)
  have hchartPath : joinModulePath galleryOptions.localPrefix (dashCase "BarChart") =
      "../components/bar-chart" := by decide +kernel
  have hbadgePath : joinModulePath galleryOptions.localPrefix
      (Component.modulePath { name := "Badge", node := .text "" }) =
      "../components/badge" := by decide +kernel
  exact ⟨compiled, declared, body, link, chart, badge, hcompiled, ((hfiles _).2 rfl).1, hlinks,
    hchartPath ▸ hcharts, hbadgePath ▸ hbadges⟩

end React

end Sitewright
