import Sitewright.Proofs.Mapping.Resolution

/-!
# Attributes of mapped elements

The attributes of a mapped element come about in two passes. The first visits the entries of the
mapping: each writes its value, or the value of the attribute that it is bound to, which is then
taken. The second copies the attributes of the element that were not taken. Every value is read from
the element as it was, so it does not matter in which order the entries are visited.
-/

namespace Sitewright.Mapping

open Ui (Value)

variable {mapped attrs : Table Value} {key id : String}

/-- Some entry of a mapping is bound to an attribute. -/
def Binds (mapped : Table Value) (id : String) : Prop :=
  ∃ key, mapped.get? key = some (.dynamic ⟨.attr, id⟩)

theorem boundAttr?_eq_some_iff {value : Value} :
    value.boundAttr? = some id ↔ value = .dynamic ⟨.attr, id⟩ := by
  rcases value with s | ⟨kind, other⟩
  · simp [Value.boundAttr?]
  · cases kind <;> simp [Value.boundAttr?]

theorem mem_bound_iff : id ∈ mapped.values.filterMap Value.boundAttr? ↔ Binds mapped id := by
  simp only [Table.values, List.mem_filterMap, List.mem_map, boundAttr?_eq_some_iff, Prod.exists,
    exists_eq_right, Binds, ← Table.mem_entries_iff]

instance : Decidable (Binds mapped id) := decidable_of_iff _ mem_bound_iff

theorem mem_consumed_iff :
    key ∈ consumed mapped attrs ↔ Binds mapped key ∧ attrs.contains key = true := by
  rw [consumed, List.mem_filter, mem_bound_iff]

/-! ## The two passes -/

structure Visited where
  written : Table Value := ∅
  /-- The attributes of the element whose values have been written. -/
  taken : List String := []

def visit (attrs : Table Value) (s : Visited) (e : String × Value) : Visited :=
  match e.2.boundAttr? with
  | none => { s with written := s.written.insert e.1 e.2 }
  | some id =>
    match attrs.get? id with
    | none => s
    | some value => { written := s.written.insert e.1 value, taken := s.taken ++ [id] }

def copy (taken : List String) (t : Table Value) (e : String × Value) : Table Value :=
  if e.1 ∈ taken then t else t.insert e.1 e.2

def inPasses (attrs : Table Value) (entries own : List (String × Value)) : Table Value :=
  let s := entries.foldl (visit attrs) {}
  own.foldl (copy s.taken) s.written

def write? (attrs : Table Value) (e : String × Value) : Option (String × Value) :=
  (mappedValue? attrs e.2).map fun value => (e.1, value)

def take? (attrs : Table Value) (e : String × Value) : Option String :=
  e.2.boundAttr?.filter attrs.contains

theorem visit_eq (attrs : Table Value) (s : Visited) (e : String × Value) :
    visit attrs s e =
      { written := s.written.insertAll (write? attrs e).toList
        taken := s.taken ++ (take? attrs e).toList } := by
  unfold visit write? take? mappedValue?
  cases e.2.boundAttr? with
  | none => simp [Table.insertAll]
  | some id =>
    rw [Option.filter_some, Table.contains]
    cases h : attrs.get? id with
    | none => simp [Table.insertAll, h]
    | some value => simp [Table.insertAll, h]

theorem foldl_visit (attrs : Table Value) (entries : List (String × Value)) (s : Visited) :
    entries.foldl (visit attrs) s =
      { written := s.written.insertAll (entries.filterMap (write? attrs))
        taken := s.taken ++ entries.filterMap (take? attrs) } := by
  simp only [List.filterMap_eq_flatMap_toList]
  induction entries generalizing s with
  | nil => simp [Table.insertAll]
  | cons e entries ih =>
    rw [List.foldl_cons, ih, visit_eq, List.flatMap_cons, List.flatMap_cons, List.append_assoc,
      Table.insertAll_append]

theorem foldl_copy (taken : List String) (own : List (String × Value)) (t : Table Value) :
    own.foldl (copy taken) t = t.insertAll (own.filter fun e => !taken.contains e.1) := by
  induction own generalizing t with
  | nil => rfl
  | cons e own ih =>
    rw [List.foldl_cons, ih, copy]
    by_cases h : e.1 ∈ taken
    · rw [if_pos h, List.filter_cons_of_neg (by simp [h])]
    · rw [if_neg h, List.filter_cons_of_pos (by simp [h]), Table.insertAll_cons]

theorem consumed_eq (mapped attrs : Table Value) :
    consumed mapped attrs = mapped.entries.filterMap (take? attrs) := by
  rw [consumed, List.filter_filterMap, Table.values, List.filterMap_map]
  rfl

/-- Whatever the order of the visits, the passes write the attributes of a mapped element. -/
theorem inPasses_eq {entries own : List (String × Value)} (hentries : entries.Perm mapped.entries)
    (hown : own.Perm attrs.entries) :
    inPasses attrs entries own = resolveAttributes mapped attrs := by
  have hwrites : (entries.filterMap (write? attrs)).Perm
      (mapped.entries.filterMap (write? attrs)) := hentries.filterMap _
  have hkeys : ((entries.filterMap (write? attrs)).map Prod.fst).Nodup := by
    rw [(hwrites.map Prod.fst).nodup_iff]
    exact (Table.mk _ (mapped.sorted_filterMap (mappedValue? attrs))).nodup_keys
  have htaken : (entries.filterMap (take? attrs)).Perm (consumed mapped attrs) := by
    rw [consumed_eq]
    exact hentries.filterMap _
  have hkept : (own.filter fun e => !(entries.filterMap (take? attrs)).contains e.1).Perm
      (attrs.entries.filter fun e => !(consumed mapped attrs).contains e.1) := by
    simp only [List.contains_eq_mem, htaken.mem_iff]
    exact hown.filter _
  have hkeptKeys := (attrs.nodup_keys.sublist (List.filter_sublist.map Prod.fst)).perm
    (hkept.map Prod.fst).symm
  rw [inPasses, foldl_visit, foldl_copy]
  show ((∅ : Table Value).insertAll _).insertAll _ = _
  rw [Table.insertAll_perm hwrites hkeys, List.nil_append, Table.insertAll_perm hkept hkeptKeys]
  rfl

/-! ## What is found under a key -/

theorem get?_resolveAttributes_of_free {value : Value} (hvalue : attrs.get? key = some value)
    (hfree : ¬ Binds mapped key) : (resolveAttributes mapped attrs).get? key = some value := by
  have hkept : key ∉ consumed mapped attrs := fun hmem => hfree (mem_consumed_iff.1 hmem).1
  rw [get?_resolveAttributes, if_neg hkept, hvalue, Option.some_or]

theorem get?_resolveAttributes_of_taken (h : attrs.get? key = none ∨ Binds mapped key) :
    (resolveAttributes mapped attrs).get? key =
      (mapped.get? key).bind (mappedValue? attrs) := by
  have hown : (if key ∈ consumed mapped attrs then none else attrs.get? key) = none := by
    split
    · rfl
    · next hkept =>
      rw [mem_consumed_iff, not_and, Table.contains, Bool.not_eq_true,
        Option.isSome_eq_false_iff, Option.isNone_iff_eq_none] at hkept
      exact h.elim id hkept
  rw [get?_resolveAttributes, hown, Option.none_or]

theorem get?_resolveAttributes_of_bound (h : attrs.get? key = none ∨ Binds mapped key)
    (hbound : mapped.get? key = some (.dynamic ⟨.attr, id⟩)) :
    (resolveAttributes mapped attrs).get? key = attrs.get? id := by
  rw [get?_resolveAttributes_of_taken h, hbound]
  rfl

theorem resolveAttributes_empty (attrs : Table Value) : resolveAttributes ∅ attrs = attrs := by
  apply Table.ext_get?
  intro key
  have hfree : ¬ Binds ∅ key := by
    rintro ⟨other, h⟩
    cases h
  cases h : attrs.get? key with
  | some value => exact get?_resolveAttributes_of_free h hfree
  | none =>
    rw [get?_resolveAttributes_of_taken (.inl h)]
    rfl

theorem attrs_resolveElement {m : Mapping} {e : Ui.Element} {target : ElementMapping}
    (hmark : e.mappedFrom = none) (htarget : m.elements.get? e.kind = some target) :
    (m.resolveElement e).attrs = resolveAttributes target.attrs e.attrs := by
  rw [resolveElement, hmark, htarget]
  show (if target.attrs.isEmpty then e.attrs else resolveAttributes target.attrs e.attrs) = _
  split
  · next hempty =>
    have hnone : target.attrs = ∅ := Table.ext (List.isEmpty_iff.1 hempty)
    rw [hnone, resolveAttributes_empty]
  · rfl

/-- The attributes of a mapped element, by key: an attribute of the element that no entry of the
mapping is bound to stays as it is, and under every other key there is the value of the mapping,
read from the element if it is bound. So bindings can follow one another in a chain or swap two keys
of the element, and the order in which the entries are visited is of no account. -/
theorem attributes_resolved (mapped attrs : Table Value) :
    (∀ key value, attrs.get? key = some value → ¬ Binds mapped key →
      (resolveAttributes mapped attrs).get? key = some value) ∧
    (∀ key, attrs.get? key = none ∨ Binds mapped key →
      (resolveAttributes mapped attrs).get? key =
        match mapped.get? key with
        | some (.dynamic ⟨.attr, id⟩) => attrs.get? id
        | other => other) ∧
    (∀ first second id, mapped.get? first = some (.dynamic ⟨.attr, second⟩) →
      mapped.get? second = some (.dynamic ⟨.attr, id⟩) →
      (resolveAttributes mapped attrs).get? second = attrs.get? id) ∧
    (∀ first second, mapped.get? first = some (.dynamic ⟨.attr, second⟩) →
      mapped.get? second = some (.dynamic ⟨.attr, first⟩) →
      (resolveAttributes mapped attrs).get? first = attrs.get? second ∧
        (resolveAttributes mapped attrs).get? second = attrs.get? first) ∧
    (∀ entries own : List (String × Value), entries.Perm mapped.entries → own.Perm attrs.entries →
      inPasses attrs entries own = resolveAttributes mapped attrs) ∧
    ∀ (m : Mapping) (e : Ui.Element) (target : ElementMapping), e.mappedFrom = none →
      m.elements.get? e.kind = some target →
      (m.resolveElement e).attrs = resolveAttributes target.attrs e.attrs := by
  refine ⟨fun key value => get?_resolveAttributes_of_free, fun key htaken => ?_,
    fun first second id hfirst hsecond => ?_, fun first second hfirst hsecond => ⟨?_, ?_⟩,
    fun entries own => inPasses_eq, fun m e target => attrs_resolveElement⟩
  · rw [get?_resolveAttributes_of_taken htaken]
    rcases mapped.get? key with _ | s | ⟨kind, id⟩
    · rfl
    · rfl
    · cases kind <;> rfl
  · exact get?_resolveAttributes_of_bound (.inr ⟨first, hfirst⟩) hsecond
  · exact get?_resolveAttributes_of_bound (.inr ⟨second, hsecond⟩) hfirst
  · exact get?_resolveAttributes_of_bound (.inr ⟨first, hfirst⟩) hsecond

def crossing : ElementMapping where
  kind := "a"
  attrs := Table.ofList [("href", .dynamic ⟨.attr, "title"⟩), ("lang", .dynamic ⟨.attr, "locale"⟩),
    ("rel", .literal "next"), ("title", .dynamic ⟨.attr, "href"⟩)]

def crossed : Ui.Element where
  kind := "navlink"
  attrs := Table.ofList [("class", .literal "wide"), ("href", .literal "/about"),
    ("title", .literal "About us")]

theorem attributes_resolved_crossed :
    ¬ Binds crossing.attrs "class" ∧
    (Mapping.resolveElement { elements := Table.ofList [("navlink", crossing)] } crossed).attrs =
      Table.ofList [("class", .literal "wide"), ("href", .literal "About us"),
        ("rel", .literal "next"), ("title", .literal "/about")] ∧
    (resolveAttributes crossing.attrs crossed.attrs).get? "class" = some (.literal "wide") ∧
    (resolveAttributes crossing.attrs crossed.attrs).get? "lang" = none ∧
    (resolveAttributes crossing.attrs crossed.attrs).get? "href" = crossed.attrs.get? "title" ∧
    inPasses crossed.attrs crossing.attrs.entries.reverse crossed.attrs.entries.reverse =
      resolveAttributes crossing.attrs crossed.attrs := by
  obtain ⟨hfree, htaken, -, hswap, hpasses, helement⟩ :=
    attributes_resolved crossing.attrs crossed.attrs
  have hclass : ¬ Binds crossing.attrs "class" := by decide
  refine ⟨hclass, ?_, hfree "class" _ rfl hclass, htaken "lang" (.inl rfl), ?_,
    hpasses _ _ (List.reverse_perm _) (List.reverse_perm _)⟩
  · rw [helement _ crossed crossing rfl rfl]
    decide
  · exact (hswap "href" "title" rfl rfl).1

end Sitewright.Mapping
