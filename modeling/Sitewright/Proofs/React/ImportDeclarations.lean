import Mathlib.Data.List.Induction
import Mathlib.Data.List.Nodup
import Mathlib.Data.List.Pairwise
import Sitewright.Proofs.Chunk.Store
import Sitewright.Proofs.Outcome
import Sitewright.Proofs.Table
import Sitewright.React.ImportStatements

/-!
# Import declarations of a draft

The records of one kind are grouped by module: `grouped` says what the declarations are, and each
record that is declared takes the groups of the records before it to those of the records up to it.
A record clashes with another one if both bind the same module whole. The declarations exist exactly
when no two records clash, and they then bind every identifier once.
-/

namespace Sitewright.React

open Script (ImportClause)

variable {kind : DependencyKind} {way : ImportKind} {source s t : String}
  {records : List (String × Dependency)} {r q : String × Dependency}

def importedAs (way : ImportKind) (source : String) (records : List (String × Dependency)) :
    List (String × Dependency) :=
  records.filter fun r => r.2.source = source ∧ r.2.importKind = way

def clauseOf (source : String) (records : List (String × Dependency)) : ImportClause where
  default := (importedAs .default source records).head?.map Prod.fst
  namespaceName := (importedAs .namespaceImport source records).head?.map Prod.fst
  named := (importedAs .named source records).map fun r => ⟨r.2.exportedName.getD r.1, r.1⟩

def sources (records : List (String × Dependency)) : List String :=
  (records.map (·.2.source)).eraseDups

def grouped (records : List (String × Dependency)) : List (String × ImportClause) :=
  (sources records).map fun s => (s, clauseOf s records)

/-- Two records that bind one module whole in the same way. -/
def Clash (r q : String × Dependency) : Prop :=
  r.2.source = q.2.source ∧ ((r.2.importKind = .default ∧ q.2.importKind = .default) ∨
    (r.2.importKind = .namespaceImport ∧ q.2.importKind = .namespaceImport))

theorem Clash.symm (h : Clash r q) : Clash q r := ⟨h.1.symm, h.2.imp And.symm And.symm⟩

theorem mem_importedAs : r ∈ importedAs way source records ↔
    r ∈ records ∧ r.2.source = source ∧ r.2.importKind = way := by
  simp [importedAs]

theorem importedAs_append (r : String × Dependency) :
    importedAs way source (records ++ [r]) = importedAs way source records ++
      if r.2.source = source ∧ r.2.importKind = way then [r] else [] := by
  rw [importedAs, List.filter_append]
  by_cases h : r.2.source = source ∧ r.2.importKind = way
  · simp [importedAs, h]
  · simp [importedAs, h]

theorem mem_sources : s ∈ sources records ↔ ∃ r ∈ records, r.2.source = s := by
  simp [sources]

theorem sources_append (r : String × Dependency) : sources (records ++ [r]) =
    if r.2.source ∈ sources records then sources records
    else sources records ++ [r.2.source] := by
  have hmem : r.2.source ∈ sources records ↔ r.2.source ∈ records.map (·.2.source) := by
    simp [sources]
  by_cases h : r.2.source ∈ records.map (·.2.source)
  · rw [if_pos (hmem.2 h), sources, List.map_append, List.eraseDups_append]
    simp [List.removeAll, h, sources]
  · rw [if_neg fun hs => h (hmem.1 hs), sources, List.map_append, List.eraseDups_append]
    simp [List.removeAll, h, sources, List.eraseDups_cons]

theorem nodup_sources : (sources records).Nodup := nodup_eraseDups _

/-- If identifiers increase along the records, some identifier of a module is less than all those of
the modules after it. -/
theorem pairwise_sources (h : records.Pairwise (·.1 < ·.1)) :
    (sources records).Pairwise fun s t => ∃ r ∈ records, r.2.source = s ∧
      ∀ q ∈ records, q.2.source = t → r.1 < q.1 := by
  induction records using List.reverseRecOn with
  | nil => exact List.Pairwise.nil
  | append_singleton records r ih =>
    obtain ⟨hrecords, -, hlast⟩ := List.pairwise_append.1 h
    have hlt : ∀ q ∈ records, q.1 < r.1 := fun q hq => hlast q hq r (List.mem_singleton_self r)
    have hkeep : (sources records).Pairwise fun s t => ∃ q ∈ records ++ [r], q.2.source = s ∧
        ∀ q' ∈ records ++ [r], q'.2.source = t → q.1 < q'.1 := by
      refine (ih hrecords).imp ?_
      rintro s t ⟨q, hq, hs, ht⟩
      refine ⟨q, List.mem_append_left _ hq, hs, fun q' hq' hsource => ?_⟩
      rcases List.mem_append.1 hq' with hq' | hq'
      · exact ht q' hq' hsource
      · exact List.mem_singleton.1 hq' ▸ hlt q hq
    rw [sources_append]
    by_cases hmem : r.2.source ∈ sources records
    · rwa [if_pos hmem]
    · rw [if_neg hmem]
      refine List.pairwise_append.2 ⟨hkeep, List.pairwise_singleton _ _, fun s hs t ht => ?_⟩
      obtain ⟨q, hq, hsource⟩ := mem_sources.1 hs
      refine ⟨q, List.mem_append_left _ hq, hsource, fun q' hq' heq => ?_⟩
      rcases List.mem_append.1 hq' with hq' | hq'
      · exact absurd (mem_sources.2 ⟨q', hq', heq.trans (List.mem_singleton.1 ht)⟩) hmem
      · exact List.mem_singleton.1 hq' ▸ hlt q hq

theorem clauseOf_append_of_ne (h : r.2.source ≠ source) :
    clauseOf source (records ++ [r]) = clauseOf source records := by
  simp [clauseOf, importedAs_append, h]

theorem clauseOf_of_notMem (h : source ∉ sources records) : clauseOf source records = {} := by
  have hnone (way : ImportKind) : importedAs way source records = [] := by
    rw [importedAs, List.filter_eq_nil_iff]
    intro r hr hway
    exact h (mem_sources.2 ⟨r, hr, (by simpa using hway : _ ∧ _).1⟩)
  simp [clauseOf, hnone]

theorem mergeBinding_none_right (existing : Option String) :
    mergeBinding source existing none = .ok existing := by
  cases existing <;> rfl

theorem mergeBinding_none_left (incoming : Option String) :
    mergeBinding source none incoming = .ok incoming := by
  cases incoming <;> rfl

theorem mergeClause_empty (clause : ImportClause) : mergeClause source {} clause = .ok clause := by
  simp only [mergeClause, mergeBinding_none_left]
  simp [bind, Except.bind, pure, Except.pure]

/-- A record that binds its module whole and clashes with none is the first to do so. -/
theorem importedAs_eq_nil (hfree : ∀ q ∈ records, ¬ Clash q r)
    (hway : r.2.importKind = .default ∨ r.2.importKind = .namespaceImport) :
    importedAs r.2.importKind r.2.source records = [] := by
  rw [List.eq_nil_iff_forall_not_mem]
  intro q hq
  obtain ⟨hmem, hsource, hqway⟩ := mem_importedAs.1 hq
  refine hfree q hmem ⟨hsource, ?_⟩
  rcases hway with hway | hway
  · exact .inl ⟨hqway.trans hway, hway⟩
  · exact .inr ⟨hqway.trans hway, hway⟩

/-- A record that clashes with none before it extends the clause of its module. -/
theorem mergeClause_clauseOf (hnew : r.1 ∉ records.map Prod.fst)
    (hfree : ∀ q ∈ records, ¬ Clash q r) :
    mergeClause r.2.source (clauseOf r.2.source records) (r.2.importClause r.1) =
      .ok (clauseOf r.2.source (records ++ [r])) := by
  cases hway : r.2.importKind with
  | default =>
    have hnone := hway ▸ importedAs_eq_nil hfree (.inl hway)
    simp [mergeClause, Dependency.importClause, clauseOf, importedAs_append, hway, hnone,
      mergeBinding_none_left, mergeBinding_none_right, bind, Except.bind, pure, Except.pure]
  | namespaceImport =>
    have hnone := hway ▸ importedAs_eq_nil hfree (.inr hway)
    simp [mergeClause, Dependency.importClause, clauseOf, importedAs_append, hway, hnone,
      mergeBinding_none_left, mergeBinding_none_right, bind, Except.bind, pure, Except.pure]
  | named =>
    have hfresh : ∀ q ∈ importedAs .named r.2.source records, q.1 ≠ r.1 := fun q hq heq =>
      hnew (heq ▸ List.mem_map_of_mem (mem_importedAs.1 hq).1)
    have hadded : [(⟨r.2.exportedName.getD r.1, r.1⟩ : Script.NamedImport)].filter
        (!(clauseOf r.2.source records).named.contains ·) =
          [⟨r.2.exportedName.getD r.1, r.1⟩] := by
      rw [List.filter_eq_self]
      intro n hn
      rw [List.mem_singleton.1 hn, Bool.not_eq_true', ← Bool.not_eq_true, List.contains_iff_mem,
        clauseOf, List.mem_map]
      rintro ⟨q, hq, heq⟩
      exact hfresh q hq (Script.NamedImport.mk.inj heq).2
    simp only [mergeClause, Dependency.importClause, hway, mergeBinding_none_right, hadded]
    simp [clauseOf, importedAs_append, hway, bind, Except.bind, pure, Except.pure]
  | sideEffect =>
    simp [mergeClause, Dependency.importClause, clauseOf, importedAs_append, hway,
      mergeBinding_none_right, bind, Except.bind, pure, Except.pure]

theorem mergeClause_of_clash (hnew : r.1 ∉ records.map Prod.fst) (hq : q ∈ records)
    (h : Clash q r) : ∃ existing,
      mergeClause r.2.source (clauseOf r.2.source records) (r.2.importClause r.1) =
        .error (.conflictingImport r.2.source existing r.1) := by
  have hfirst {way : ImportKind} (hway : q.2.importKind = way) : ∃ first,
      (importedAs way r.2.source records).head?.map Prod.fst = some first ∧ first ≠ r.1 := by
    have hmem := mem_importedAs.2 ⟨hq, h.1, hway⟩
    cases hl : importedAs way r.2.source records with
    | nil => simp [hl] at hmem
    | cons first rest =>
      have hrecord : first ∈ records := (mem_importedAs.1 (hl ▸ List.mem_cons_self)).1
      exact ⟨first.1, rfl, fun heq => hnew (heq ▸ List.mem_map_of_mem hrecord)⟩
  rcases h.2 with ⟨hqway, hrway⟩ | ⟨hqway, hrway⟩
  · obtain ⟨first, hfirst, hne⟩ := hfirst hqway
    refine ⟨first, ?_⟩
    simp [mergeClause, Dependency.importClause, hrway, clauseOf, hfirst, mergeBinding, hne, bind,
      Except.bind]
  · obtain ⟨first, hfirst, hne⟩ := hfirst hqway
    refine ⟨first, ?_⟩
    simp [mergeClause, Dependency.importClause, hrway, clauseOf, hfirst, mergeBinding, hne, bind,
      Except.bind]

/-- Declaring changes the clause of one module, which stands at the end if it is new. -/
theorem declare_map {f : String → ImportClause} {modules : List String} (hnodup : modules.Nodup)
    (source : String) (clause : ImportClause) :
    declare source clause (modules.map fun s => (s, f s)) =
      if source ∈ modules then (mergeClause source (f source) clause).map fun merged =>
        modules.map fun s => (s, if s = source then merged else f s)
      else .ok (modules.map (fun s => (s, f s)) ++ [(source, clause)]) := by
  induction modules with
  | nil => rfl
  | cons s modules ih =>
    obtain ⟨hs, hnodup⟩ := List.nodup_cons.1 hnodup
    rw [List.map_cons, declare]
    by_cases h : s = source
    · subst h
      have hrest (merged : ImportClause) : (modules.map fun t => (t, f t)) =
          modules.map fun t => (t, if t = s then merged else f t) :=
        List.map_congr_left fun t ht => by rw [if_neg (ne_of_mem_of_not_mem ht hs)]
      rw [if_pos rfl, if_pos List.mem_cons_self]
      cases mergeClause s (f s) clause with
      | error e => rfl
      | ok merged => simp [Except.map, hrest merged]
    · rw [if_neg h, ih hnodup]
      by_cases hmem : source ∈ modules
      · rw [if_pos hmem, if_pos (List.mem_cons_of_mem _ hmem)]
        cases mergeClause source (f source) clause with
        | error e => rfl
        | ok merged => simp [Except.map, h]
      · rw [if_neg hmem, if_neg (by simp [hmem, Ne.symm h])]
        rfl

/-- Declaring a record that clashes with none before it gives the groups up to it. -/
theorem declare_grouped (hnew : r.1 ∉ records.map Prod.fst) (hfree : ∀ q ∈ records, ¬ Clash q r) :
    declare r.2.source (r.2.importClause r.1) (grouped records) =
      .ok (grouped (records ++ [r])) := by
  have hmerge := mergeClause_clauseOf hnew hfree
  have hkeep {s : String} (h : s ≠ r.2.source) :
      clauseOf s records = clauseOf s (records ++ [r]) :=
    (clauseOf_append_of_ne (Ne.symm h)).symm
  rw [grouped, declare_map nodup_sources, grouped, sources_append]
  by_cases h : r.2.source ∈ sources records
  · rw [if_pos h, if_pos h, hmerge, Except.map]
    refine congrArg Except.ok (List.map_congr_left fun s hs => ?_)
    by_cases hs : s = r.2.source
    · rw [if_pos hs, hs]
    · rw [if_neg hs, hkeep hs]
  · rw [clauseOf_of_notMem h, mergeClause_empty] at hmerge
    rw [if_neg h, if_neg h, List.map_append, List.map_singleton, ← Except.ok.inj hmerge]
    refine congrArg (fun l => Except.ok (l ++ _)) (List.map_congr_left fun s hs => ?_)
    rw [hkeep fun heq => h (heq ▸ hs)]

theorem declare_of_clash (hnew : r.1 ∉ records.map Prod.fst) (hq : q ∈ records) (h : Clash q r) :
    ∃ existing, declare r.2.source (r.2.importClause r.1) (grouped records) =
      .error (.conflictingImport r.2.source existing r.1) := by
  have hmem : r.2.source ∈ sources records := mem_sources.2 ⟨q, hq, h.1⟩
  obtain ⟨existing, herror⟩ := mergeClause_of_clash hnew hq h
  refine ⟨existing, ?_⟩
  rw [grouped, declare_map nodup_sources, if_pos hmem, herror]
  rfl

def declareAll (records : List (String × Dependency)) : Outcome (List (String × ImportClause)) :=
  records.foldlM (fun declared r => declare r.2.source (r.2.importClause r.1) declared) []

theorem declareAll_append (r : String × Dependency) :
    declareAll (records ++ [r]) =
      declareAll records >>= declare r.2.source (r.2.importClause r.1) := by
  rw [declareAll, List.foldlM_append]
  simp only [List.foldlM_cons, List.foldlM_nil, bind_pure]
  rfl

theorem declareAll_of_pairwise (hnodup : (records.map Prod.fst).Nodup)
    (hfree : records.Pairwise (¬ Clash · ·)) : declareAll records = .ok (grouped records) := by
  induction records using List.reverseRecOn with
  | nil => rfl
  | append_singleton records r ih =>
    rw [List.map_append, List.nodup_append] at hnodup
    obtain ⟨hfree, -, hlast⟩ := List.pairwise_append.1 hfree
    have hnew : r.1 ∉ records.map Prod.fst := fun h => hnodup.2.2 _ h _ (by simp) rfl
    rw [declareAll_append, ih hnodup.1 hfree]
    exact declare_grouped hnew fun q hq => hlast q hq r (List.mem_singleton_self r)

theorem declareAll_of_not_pairwise (hnodup : (records.map Prod.fst).Nodup)
    (hclash : ¬ records.Pairwise (¬ Clash · ·)) : ∃ source existing incoming,
      declareAll records = .error (.conflictingImport source existing incoming) := by
  induction records using List.reverseRecOn with
  | nil => exact absurd List.Pairwise.nil hclash
  | append_singleton records r ih =>
    rw [List.map_append, List.nodup_append] at hnodup
    have hnew : r.1 ∉ records.map Prod.fst := fun h => hnodup.2.2 _ h _ (by simp) rfl
    rw [declareAll_append]
    by_cases hfree : records.Pairwise (¬ Clash · ·)
    · have hlast : ∃ q ∈ records, Clash q r := by
        by_contra hnone
        refine hclash (List.pairwise_append.2 ⟨hfree, List.pairwise_singleton _ _, ?_⟩)
        rintro q hq t ht hqt
        exact hnone ⟨q, hq, List.mem_singleton.1 ht ▸ hqt⟩
      obtain ⟨q, hq, hqr⟩ := hlast
      obtain ⟨existing, herror⟩ := declare_of_clash hnew hq hqr
      rw [declareAll_of_pairwise hnodup.1 hfree]
      exact ⟨r.2.source, existing, r.1, herror⟩
    · obtain ⟨source, existing, incoming, herror⟩ := ih hnodup.1 hfree
      exact ⟨source, existing, incoming, by rw [herror]; rfl⟩

end Sitewright.React
