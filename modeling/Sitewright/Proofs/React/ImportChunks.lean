import Sitewright.Proofs.React.ImportDeclarations

/-!
# Import chunks of a draft

The three import chunks hold the declarations of a draft's imports, one for each module, which bind
each identifier once and nothing else. They exist unless two identifiers are bound to one whole
module in the same way.
-/

namespace Sitewright

structure Dependency.IsFrom (d : Dependency) (kind : DependencyKind) (source : String)
    (way : ImportKind) : Prop where
  kind : d.kind = kind
  source : d.source = source
  way : d.importKind = way

/-- Two identifiers are bound to one whole module. -/
def Imports.Conflict (imports : Imports) : Prop := ∃ x y d e, x ≠ y ∧
  imports.get? x = some d ∧ imports.get? y = some e ∧ d.kind = e.kind ∧ d.source = e.source ∧
    ((d.importKind = .default ∧ e.importKind = .default) ∨
      (d.importKind = .namespaceImport ∧ e.importKind = .namespaceImport))

def Script.ImportClause.bound (c : ImportClause) : List String :=
  c.default.toList ++ c.namespaceName.toList ++ c.named.map (·.binding)

namespace React

open Script (ImportClause)

def importChunk : DependencyKind → String
  | .library => "import-lib"
  | .package => "import-pack"
  | .localPath => "import-local"

def recordsOf (kind : DependencyKind) (imports : Imports) : List (String × Dependency) :=
  imports.records.entries.filter (·.2.kind = kind)

/-- The declarations of a kind: one for each module, in the order of the least identifiers of the
modules. Each identifier is bound once, in the declaration of its module, and nothing else is. -/
structure Declares (kind : DependencyKind) (imports : Imports)
    (declared : List (String × ImportClause)) : Prop where
  nodup_sources : (declared.map Prod.fst).Nodup
  mem_sources_iff : ∀ s, s ∈ declared.map Prod.fst ↔
    ∃ x d, imports.get? x = some d ∧ d.kind = kind ∧ d.source = s
  ordered : (declared.map Prod.fst).Pairwise fun s t =>
    ∃ x d, imports.get? x = some d ∧ d.kind = kind ∧ d.source = s ∧
      ∀ y e, imports.get? y = some e → e.kind = kind → e.source = t → x < y
  default_iff : ∀ s c, (s, c) ∈ declared → ∀ x, c.default = some x ↔
    ∃ d, imports.get? x = some d ∧ d.IsFrom kind s .default
  namespace_iff : ∀ s c, (s, c) ∈ declared → ∀ x, c.namespaceName = some x ↔
    ∃ d, imports.get? x = some d ∧ d.IsFrom kind s .namespaceImport
  named_iff : ∀ s c, (s, c) ∈ declared → ∀ n, n ∈ c.named ↔
    ∃ d, imports.get? n.binding = some d ∧ d.IsFrom kind s .named ∧
      n.imported = d.exportedName.getD n.binding
  bound_once : (declared.flatMap (·.2.bound)).Perm
    (((recordsOf kind imports).filter (·.2.importKind ≠ .sideEffect)).map Prod.fst)

variable {kind : DependencyKind} {way : ImportKind} {source x : String} {imports : Imports}
  {records : List (String × Dependency)} {d : Dependency}

theorem mem_recordsOf : (x, d) ∈ recordsOf kind imports ↔
    imports.get? x = some d ∧ d.kind = kind := by
  rw [recordsOf, List.mem_filter, Table.mem_entries_iff, Imports.get?, decide_eq_true_iff]

theorem nodup_recordsOf : ((recordsOf kind imports).map Prod.fst).Nodup :=
  imports.records.nodup_keys.sublist (List.filter_sublist.map _)

theorem pairwise_recordsOf : (recordsOf kind imports).Pairwise (·.1 < ·.1) :=
  List.Pairwise.sublist List.filter_sublist imports.records.sorted

theorem declarations_eq : declarations kind imports = declareAll (recordsOf kind imports) := rfl

theorem pairwise_not_clash_iff :
    (∀ kind, (recordsOf kind imports).Pairwise (¬ Clash · ·)) ↔ ¬ imports.Conflict := by
  constructor
  · rintro h ⟨x, y, d, e, hne, hx, hy, hkind, hclash⟩
    have : Std.Symm fun r q : String × Dependency => ¬ Clash r q :=
      ⟨fun r q hrq hqr => hrq hqr.symm⟩
    exact (h e.kind).forall (mem_recordsOf.2 ⟨hx, hkind⟩) (mem_recordsOf.2 ⟨hy, rfl⟩)
      (fun heq => hne (congrArg Prod.fst heq)) hclash
  · intro h kind
    refine List.Nodup.pairwise_of_forall_ne (List.Nodup.of_map _ nodup_recordsOf) ?_
    rintro ⟨x, d⟩ hx ⟨y, e⟩ hy hne hclash
    obtain ⟨hx, hkind⟩ := mem_recordsOf.1 hx
    obtain ⟨hy, hkind'⟩ := mem_recordsOf.1 hy
    have hxy : x ≠ y := by
      rintro rfl
      exact hne (congrArg _ (Option.some.inj (hx.symm.trans hy)))
    exact h ⟨x, y, d, e, hxy, hx, hy, hkind.trans hkind'.symm, hclash⟩

/-- A module is bound whole by one record at most. -/
theorem head?_importedAs_iff (hfree : records.Pairwise (¬ Clash · ·))
    (hway : way = .default ∨ way = .namespaceImport) :
    (importedAs way source records).head?.map Prod.fst = some x ↔
      ∃ d, (x, d) ∈ importedAs way source records := by
  have hpair : (importedAs way source records).Pairwise (¬ Clash · ·) := hfree.filter _
  have hmem : ∀ r ∈ importedAs way source records, r.2.source = source ∧ r.2.importKind = way :=
    fun r hr => (mem_importedAs.1 hr).2
  cases hl : importedAs way source records with
  | nil => simp
  | cons r rest =>
    cases rest with
    | nil => simp [Prod.ext_iff, eq_comm]
    | cons q rest =>
      rw [hl] at hpair hmem
      obtain ⟨hr, hrway⟩ := hmem r (by simp)
      obtain ⟨hq, hqway⟩ := hmem q (by simp)
      refine absurd ⟨hr.trans hq.symm, ?_⟩ ((List.pairwise_cons.1 hpair).1 q List.mem_cons_self)
      rcases hway with rfl | rfl
      · exact .inl ⟨hrway, hqway⟩
      · exact .inr ⟨hrway, hqway⟩

theorem mem_importedAs_recordsOf : (x, d) ∈ importedAs way source (recordsOf kind imports) ↔
    imports.get? x = some d ∧ d.IsFrom kind source way := by
  rw [mem_importedAs, mem_recordsOf, and_assoc]
  exact and_congr_right fun _ => ⟨fun ⟨hk, hs, hw⟩ => ⟨hk, hs, hw⟩, fun h => ⟨h.1, h.2, h.3⟩⟩

section Free

variable (hfree : (recordsOf kind imports).Pairwise (¬ Clash · ·))
include hfree

theorem default_clauseOf_iff : (clauseOf source (recordsOf kind imports)).default = some x ↔
    ∃ d, imports.get? x = some d ∧ d.IsFrom kind source .default := by
  rw [clauseOf, head?_importedAs_iff hfree (.inl rfl)]
  simp only [mem_importedAs_recordsOf]

theorem namespace_clauseOf_iff :
    (clauseOf source (recordsOf kind imports)).namespaceName = some x ↔
      ∃ d, imports.get? x = some d ∧ d.IsFrom kind source .namespaceImport := by
  rw [clauseOf, head?_importedAs_iff hfree (.inr rfl)]
  simp only [mem_importedAs_recordsOf]

omit hfree in
theorem named_clauseOf_iff {n : Script.NamedImport} :
    n ∈ (clauseOf source (recordsOf kind imports)).named ↔
      ∃ d, imports.get? n.binding = some d ∧ d.IsFrom kind source .named ∧
        n.imported = d.exportedName.getD n.binding := by
  rw [clauseOf, List.mem_map]
  constructor
  · rintro ⟨⟨x, d⟩, hr, rfl⟩
    obtain ⟨hget, hfrom⟩ := mem_importedAs_recordsOf.1 hr
    exact ⟨d, hget, hfrom, rfl⟩
  · rintro ⟨d, hget, hfrom, himported⟩
    exact ⟨(n.binding, d), mem_importedAs_recordsOf.2 ⟨hget, hfrom⟩,
      congrArg (Script.NamedImport.mk · n.binding) himported.symm⟩

omit hfree in
theorem binding_clauseOf :
    (clauseOf source (recordsOf kind imports)).named.map (·.binding) =
      (importedAs .named source (recordsOf kind imports)).map Prod.fst := by
  rw [clauseOf, List.map_map]
  rfl

omit hfree in
theorem mem_binding_clauseOf_iff :
    x ∈ (clauseOf source (recordsOf kind imports)).named.map (·.binding) ↔
      ∃ d, imports.get? x = some d ∧ d.IsFrom kind source .named := by
  rw [binding_clauseOf, List.mem_map]
  constructor
  · rintro ⟨⟨x, d⟩, hr, rfl⟩
    exact ⟨d, mem_importedAs_recordsOf.1 hr⟩
  · rintro ⟨d, hd⟩
    exact ⟨(x, d), mem_importedAs_recordsOf.2 hd, rfl⟩

theorem mem_bound_clauseOf_iff : x ∈ (clauseOf source (recordsOf kind imports)).bound ↔
    ∃ d, imports.get? x = some d ∧ d.kind = kind ∧ d.source = source ∧
      d.importKind ≠ .sideEffect := by
  rw [ImportClause.bound, List.mem_append, List.mem_append, Option.mem_toList, Option.mem_toList,
    default_clauseOf_iff hfree, namespace_clauseOf_iff hfree, mem_binding_clauseOf_iff]
  constructor
  · rintro ((⟨d, hget, hfrom⟩ | ⟨d, hget, hfrom⟩) | ⟨d, hget, hfrom⟩)
    all_goals exact ⟨d, hget, hfrom.kind, hfrom.source, by rw [hfrom.way]; decide⟩
  · rintro ⟨d, hget, hkind, hsource, hway⟩
    cases h : d.importKind with
    | default => exact .inl (.inl ⟨d, hget, hkind, hsource, h⟩)
    | namespaceImport => exact .inl (.inr ⟨d, hget, hkind, hsource, h⟩)
    | named => exact .inr ⟨d, hget, hkind, hsource, h⟩
    | sideEffect => exact absurd h hway

theorem nodup_bound_clauseOf : (clauseOf source (recordsOf kind imports)).bound.Nodup := by
  have hoption (o : Option String) : o.toList.Nodup := by cases o <;> simp
  have hnamed : ((clauseOf source (recordsOf kind imports)).named.map (·.binding)).Nodup := by
    rw [binding_clauseOf]
    exact nodup_recordsOf.sublist (List.filter_sublist.map _)
  have hway {x : String} {way way' : ImportKind}
      (h : ∃ d, imports.get? x = some d ∧ d.IsFrom kind source way)
      (h' : ∃ d, imports.get? x = some d ∧ d.IsFrom kind source way') : way = way' := by
    obtain ⟨d, hget, hfrom⟩ := h
    obtain ⟨e, hget', hfrom'⟩ := h'
    rw [← hfrom.way, ← hfrom'.way, Option.some.inj (hget.symm.trans hget')]
  refine List.nodup_append.2 ⟨List.nodup_append.2 ⟨hoption _, hoption _, ?_⟩, hnamed, ?_⟩
  · rintro x hx y hy rfl
    rw [Option.mem_toList] at hx hy
    cases hway ((default_clauseOf_iff hfree).1 hx) ((namespace_clauseOf_iff hfree).1 hy)
  · rintro x hx y hy rfl
    have hy := mem_binding_clauseOf_iff.1 hy
    rcases List.mem_append.1 hx with hx | hx
    · rw [Option.mem_toList] at hx
      cases hway ((default_clauseOf_iff hfree).1 hx) hy
    · rw [Option.mem_toList] at hx
      cases hway ((namespace_clauseOf_iff hfree).1 hx) hy

theorem bound_grouped_perm :
    ((grouped (recordsOf kind imports)).flatMap (·.2.bound)).Perm
      (((recordsOf kind imports).filter (·.2.importKind ≠ .sideEffect)).map Prod.fst) := by
  have hleft : ((grouped (recordsOf kind imports)).flatMap (·.2.bound)).Nodup := by
    rw [grouped, List.flatMap_map]
    refine List.nodup_flatMap.2 ⟨fun s _ => nodup_bound_clauseOf hfree, ?_⟩
    refine nodup_sources.imp fun {s t} hne x hs ht => ?_
    obtain ⟨d, hd, -, hsource, -⟩ := (mem_bound_clauseOf_iff hfree).1 hs
    obtain ⟨e, he, -, hsource', -⟩ := (mem_bound_clauseOf_iff hfree).1 ht
    exact hne (hsource.symm.trans ((Option.some.inj (hd.symm.trans he)) ▸ hsource'))
  have hright : (((recordsOf kind imports).filter (·.2.importKind ≠ .sideEffect)).map
      Prod.fst).Nodup := nodup_recordsOf.sublist (List.filter_sublist.map _)
  refine (List.perm_ext_iff_of_nodup hleft hright).2 fun x => ?_
  rw [grouped, List.flatMap_map, List.mem_flatMap, List.mem_map]
  constructor
  · rintro ⟨s, -, hx⟩
    obtain ⟨d, hget, hkind, -, hway⟩ := (mem_bound_clauseOf_iff hfree).1 hx
    exact ⟨(x, d), List.mem_filter.2 ⟨mem_recordsOf.2 ⟨hget, hkind⟩, by simpa using hway⟩, rfl⟩
  · rintro ⟨⟨x, d⟩, hr, rfl⟩
    obtain ⟨hr, hway⟩ := List.mem_filter.1 hr
    obtain ⟨hget, hkind⟩ := mem_recordsOf.1 hr
    exact ⟨d.source, mem_sources.2 ⟨(x, d), hr, rfl⟩,
      (mem_bound_clauseOf_iff hfree).2 ⟨d, hget, hkind, rfl, by simpa using hway⟩⟩

theorem declares_grouped : Declares kind imports (grouped (recordsOf kind imports)) := by
  have hsources : (grouped (recordsOf kind imports)).map Prod.fst =
      sources (recordsOf kind imports) := by
    rw [grouped, List.map_map]
    exact List.map_id _
  have hclause {s : String} {c : ImportClause} (h : (s, c) ∈ grouped (recordsOf kind imports)) :
      c = clauseOf s (recordsOf kind imports) := by
    obtain ⟨t, -, heq⟩ := List.mem_map.1 h
    obtain ⟨rfl, rfl⟩ := Prod.mk.inj heq
    rfl
  refine ⟨hsources ▸ nodup_sources, fun s => ?_, ?_, fun s c h x => ?_, fun s c h x => ?_,
    fun s c h n => ?_, bound_grouped_perm hfree⟩
  · rw [hsources, mem_sources]
    constructor
    · rintro ⟨⟨x, d⟩, hr, hs⟩
      obtain ⟨hget, hkind⟩ := mem_recordsOf.1 hr
      exact ⟨x, d, hget, hkind, hs⟩
    · rintro ⟨x, d, hget, hkind, hs⟩
      exact ⟨(x, d), mem_recordsOf.2 ⟨hget, hkind⟩, hs⟩
  · rw [hsources]
    refine (pairwise_sources pairwise_recordsOf).imp ?_
    rintro s t ⟨⟨x, d⟩, hr, hs, hlt⟩
    obtain ⟨hget, hkind⟩ := mem_recordsOf.1 hr
    exact ⟨x, d, hget, hkind, hs, fun y e hy hkind' ht =>
      hlt (y, e) (mem_recordsOf.2 ⟨hy, hkind'⟩) ht⟩
  · rw [hclause h, default_clauseOf_iff hfree]
  · rw [hclause h, namespace_clauseOf_iff hfree]
  · rw [hclause h, named_clauseOf_iff]

end Free

theorem declarations_of_free (hfree : (recordsOf kind imports).Pairwise (¬ Clash · ·)) :
    declarations kind imports = .ok (grouped (recordsOf kind imports)) :=
  declarations_eq.trans (declareAll_of_pairwise nodup_recordsOf hfree)

theorem declarations_of_clash (hclash : ¬ (recordsOf kind imports).Pairwise (¬ Clash · ·)) :
    ∃ source existing incoming,
      declarations kind imports = .error (.conflictingImport source existing incoming) :=
  declareAll_of_not_pairwise nodup_recordsOf hclash

theorem declarationsChunk_eq (name : String) (declared : List (String × ImportClause)) :
    declarationsChunk name declared =
      { Chunk.ofCode name .js (.program (declared.map fun e => .importing e.1 e.2)) with
        isHidden := declared.isEmpty } := by
  cases declared <;> rfl

theorem content_declarationsChunk (name : String) (declared : List (String × ImportClause)) :
    (declarationsChunk name declared).content =
      .code (.program (declared.map fun e => .importing e.1 e.2)) := by
  rw [declarationsChunk_eq]
  rfl

theorem isHidden_declarationsChunk (name : String) (declared : List (String × ImportClause)) :
    (declarationsChunk name declared).isHidden = true ↔ declared = [] := by
  rw [declarationsChunk_eq]
  exact List.isEmpty_iff

theorem isAt_declarationsChunk (name : String) (declared : List (String × ImportClause))
    (fileType : FileType) (other : String) :
    (declarationsChunk name declared).isAt fileType other = (.js = fileType && name = other) := by
  rw [declarationsChunk_eq]
  rfl

variable {draft : Draft}

def withImportChunks (draft : Draft) (declared : DependencyKind → List (String × ImportClause)) :
    Draft :=
  draft.addChunks ([.library, .package, .localPath].map fun kind =>
    declarationsChunk (importChunk kind) (declared kind))

theorem get?_withImportChunks (declared : DependencyKind → List (String × ImportClause))
    (kind : DependencyKind) :
    (withImportChunks draft declared).chunks.get? .js (importChunk kind) =
      some (declarationsChunk (importChunk kind) (declared kind)) := by
  simp only [withImportChunks, Draft.addChunks, ChunkStore.addAll, List.map_cons, List.map_nil,
    List.foldl_cons, List.foldl_nil, ChunkStore.get?_add, isAt_declarationsChunk]
  cases kind <;> simp [importChunk]

theorem run_importStatements (himports : draft.allImports = .ok imports)
    (hfree : ∀ kind, (recordsOf kind imports).Pairwise (¬ Clash · ·)) :
    importStatements.run draft =
      .ok (withImportChunks draft fun kind => grouped (recordsOf kind imports)) := by
  simp only [importStatements, himports, declarations_of_free (hfree _), bind, Except.bind]
  rfl

theorem run_importStatements_of_clash (himports : draft.allImports = .ok imports)
    (hclash : ¬ ∀ kind, (recordsOf kind imports).Pairwise (¬ Clash · ·)) :
    ∃ source existing incoming,
      importStatements.run draft = .error (.conflictingImport source existing incoming) := by
  have hrun : importStatements.run draft = (do
      let libraries ← declarations .library imports
      let packages ← declarations .package imports
      let locals ← declarations .localPath imports
      pure (draft.addChunks [declarationsChunk "import-lib" libraries,
        declarationsChunk "import-pack" packages, declarationsChunk "import-local" locals])) := by
    simp only [importStatements, himports]
    rfl
  rw [hrun]
  by_cases hlibrary : (recordsOf .library imports).Pairwise (¬ Clash · ·)
  · rw [declarations_of_free hlibrary]
    by_cases hpackage : (recordsOf .package imports).Pairwise (¬ Clash · ·)
    · rw [declarations_of_free hpackage]
      by_cases hlocal : (recordsOf .localPath imports).Pairwise (¬ Clash · ·)
      · exact absurd (fun kind => by cases kind <;> assumption) hclash
      · obtain ⟨source, existing, incoming, herror⟩ := declarations_of_clash hlocal
        exact ⟨source, existing, incoming, by rw [herror]; rfl⟩
    · obtain ⟨source, existing, incoming, herror⟩ := declarations_of_clash hpackage
      exact ⟨source, existing, incoming, by rw [herror]; rfl⟩
  · obtain ⟨source, existing, incoming, herror⟩ := declarations_of_clash hlibrary
    exact ⟨source, existing, incoming, by rw [herror]; rfl⟩

/-- The import chunks of a draft fail on a conflict, and hold all its imports otherwise. -/
theorem importStatements_declare_or_conflict (himports : draft.allImports = .ok imports) :
    ((∃ source existing incoming,
        importStatements.run draft = .error (.conflictingImport source existing incoming)) ↔
      imports.Conflict) ∧
    (¬ imports.Conflict → ∃ result, importStatements.run draft = .ok result ∧
      ∀ kind, ∃ chunk declared, result.chunks.get? .js (importChunk kind) = some chunk ∧
        chunk.content = .code (.program (declared.map fun e => .importing e.1 e.2)) ∧
        (chunk.isHidden = true ↔ declared = []) ∧ Declares kind imports declared) := by
  constructor
  · constructor
    · rintro ⟨source, existing, incoming, herror⟩
      by_contra hnone
      rw [run_importStatements himports (pairwise_not_clash_iff.2 hnone)] at herror
      cases herror
    · intro hconflict
      exact run_importStatements_of_clash himports fun hfree =>
        pairwise_not_clash_iff.1 hfree hconflict
  · intro hnone
    have hfree := pairwise_not_clash_iff.2 hnone
    refine ⟨_, run_importStatements himports hfree, fun kind => ?_⟩
    exact ⟨_, _, get?_withImportChunks _ kind, content_declarationsChunk _ _,
      isHidden_declarationsChunk _ _, declares_grouped (hfree kind)⟩

def cardAndTile : Imports where
  records := (Table.empty.insert "Card" (.localPath "../card")).insert "Tile" (.localPath "../card")

def cardAndTileDraft : Draft where
  component := default
  imports := cardAndTile
  options := default

theorem importStatements_declare_or_conflict_cardAndTile :
    cardAndTileDraft.allImports = .ok cardAndTile ∧ ∃ source existing incoming,
      importStatements.run cardAndTileDraft =
        .error (.conflictingImport source existing incoming) := by
  have himports : cardAndTileDraft.allImports = .ok cardAndTile := rfl
  have hcard : cardAndTile.get? "Card" = some (.localPath "../card") := by
    simp [Imports.get?, cardAndTile, Table.get?_insert]
  have htile : cardAndTile.get? "Tile" = some (.localPath "../card") := by
    simp [Imports.get?, cardAndTile, Table.get?_insert]
  exact ⟨himports, (importStatements_declare_or_conflict himports).1.2
    ⟨"Card", "Tile", _, _, by decide, hcard, htile, rfl, rfl, .inl ⟨rfl, rfl⟩⟩⟩

end React

end Sitewright
