import Sitewright.Proofs.Json.Reading

/-!
# What decoders make of records and cases

A record is described by its fields: the key and the aliases of each one, what stands under the key
and what is read from it. A decoder of a record only has to put together what is read from the
fields, in whatever order they stand.
-/

namespace Sitewright.Json

variable {α β : Type}

/-- A field of a record as it is encoded, if it is not left out, and what is read from it. -/
structure Field where
  key : String
  aliases : List String := []
  json : Option Json
  Reads : Option Json → Prop
  distinct : ∀ j ∈ json, j.DistinctNames
  readable : ∀ j ∈ json, j.isReadable = true
  read : ∀ {json' : Option Json}, Option.Rel Rearranged json' json → Reads json'

namespace Field

variable {f : Json → Option α} {j : Json} {a : α} {enc : α → Json}

@[simp] def names (x : Field) : List String := x.key :: x.aliases

@[reducible] def required (key : String) (h : Decodes f j a) : Field where
  key := key
  json := some j
  Reads json := Json.required f json = some a
  distinct := by rintro _ ⟨⟩; exact h.distinct
  readable := by rintro _ ⟨⟩; exact h.readable
  read := by rintro _ (hj | _); exact h.read hj

@[reducible] def defaulted (key : String) (default : α) (h : Decodes f j a) : Field where
  key := key
  json := some j
  Reads json := Json.defaulted f default json = some a
  distinct := by rintro _ ⟨⟩; exact h.distinct
  readable := by rintro _ ⟨⟩; exact h.readable
  read := by rintro _ (hj | _); exact h.read hj

theorem nullable_some (hnull : f .null = none) (h : f j = some a) :
    Json.nullable f (some j) = some (some a) := by
  cases j with
  | null => rw [hnull] at h; cases h
  | _ => simp [Json.nullable, h]

/-- A field that is left out when it has no value. -/
@[reducible] def omitted (key : String) (o : Option α) (hnull : f .null = none)
    (h : ∀ a ∈ o, Decodes f (enc a) a) : Field where
  key := key
  json := o.map enc
  Reads json := Json.nullable f json = some o
  distinct := by
    intro j hj
    obtain ⟨a, ha, rfl⟩ := Option.map_eq_some_iff.1 hj
    exact (h a ha).distinct
  readable := by
    intro j hj
    obtain ⟨a, ha, rfl⟩ := Option.map_eq_some_iff.1 hj
    exact (h a ha).readable
  read := by
    intro json hj
    cases o with
    | none => cases hj; rfl
    | some a =>
      obtain hj | _ := hj
      exact nullable_some hnull ((h a rfl).read hj)

/-- A field that is null when it has no value. -/
@[reducible] def nullable (key : String) (o : Option α) (hnull : f .null = none)
    (h : ∀ a ∈ o, Decodes f (enc a) a) : Field where
  key := key
  json := some (ofOption enc o)
  Reads json := Json.nullable f json = some o
  distinct := by
    rintro _ ⟨⟩
    cases o with
    | none => trivial
    | some a => exact (h a rfl).distinct
  readable := by
    rintro _ ⟨⟩
    cases o with
    | none => rfl
    | some a => exact (h a rfl).readable
  read := by
    rintro _ (hj | _)
    cases o with
    | none => cases hj; rfl
    | some a => exact nullable_some hnull ((h a rfl).read hj)

@[reducible] def arranged (key : String) (json : Option Json)
    (distinct : ∀ j ∈ json, j.DistinctNames) (readable : ∀ j ∈ json, j.isReadable = true) : Field where
  key := key
  json := json
  Reads json' := Option.Rel Rearranged json' json
  distinct := distinct
  readable := readable
  read := id

@[simp] theorem reads_required {key : String} {h : Decodes f j a} {json : Option Json} :
    (required key h).Reads json ↔ Json.required f json = some a := Iff.rfl

@[simp] theorem reads_defaulted {key : String} {value : α} {h : Decodes f j a}
    {json : Option Json} :
    (defaulted key value h).Reads json ↔ Json.defaulted f value json = some a := Iff.rfl

@[simp] theorem reads_omitted {key : String} {o : Option α} {hnull : f .null = none}
    {h : ∀ a ∈ o, Decodes f (enc a) a} {json : Option Json} :
    (omitted key o hnull h).Reads json ↔ Json.nullable f json = some o := Iff.rfl

@[simp] theorem reads_nullable {key : String} {o : Option α} {hnull : f .null = none}
    {h : ∀ a ∈ o, Decodes f (enc a) a} {json : Option Json} :
    (nullable key o hnull h).Reads json ↔ Json.nullable f json = some o := Iff.rfl

end Field

@[simp] theorem fieldIfSome_id_some (key : String) (j : Json) :
    fieldIfSome key id (some j) = [(key, j)] := rfl

@[simp] theorem fieldIfSome_id_map (key : String) (enc : α → Json) (o : Option α) :
    fieldIfSome key id (o.map enc) = fieldIfSome key enc o := by
  cases o with
  | none => rfl
  | some a => rfl

def ofFields (fields : List Field) : List (String × Json) :=
  fields.flatMap fun x => fieldIfSome x.key id x.json

@[simp] theorem ofFields_nil : ofFields [] = [] := rfl

@[simp] theorem ofFields_cons (x : Field) (rest : List Field) :
    ofFields (x :: rest) = fieldIfSome x.key id x.json ++ ofFields rest := rfl

/-! ## One field among the others -/

/-- What a record has under some names, if it has it once. -/
def pick (fields : List (String × Json)) (names : List String) : Option (Option Json) :=
  match fields.filter (names.contains ·.1) with
  | [] => some none
  | [e] => some (some e.2)
  | _ => none

theorem record?_object (form : Form) (names : List (List String)) (fields : List (String × Json)) :
    form.record? names (.object fields) = names.mapM (pick fields) := rfl

theorem RearrangedFields.filter (p : String → Bool) {fields' fields : List (String × Json)}
    (h : RearrangedFields fields' fields) :
    RearrangedFields (fields'.filter (p ·.1)) (fields.filter (p ·.1)) := by
  induction fields generalizing fields' with
  | nil => cases h; exact .nil
  | cons e rest ih =>
    cases h with
    | cons key h hrest =>
      cases hp : p key with
      | true => simpa [hp] using .cons key h (ih hrest)
      | false => simpa [hp] using ih hrest

theorem pick_rearranged {fields' between fields : List (String × Json)} {names : List String}
    {key : String} {json : Option Json} (hperm : fields'.Perm between)
    (h : RearrangedFields between fields)
    (hfilter : fields.filter (names.contains ·.1) = fieldIfSome key id json) :
    ∃ json', pick fields' names = some json' ∧ Option.Rel Rearranged json' json := by
  have hbetween := h.filter names.contains
  have hfields' := hperm.filter fun e => names.contains e.1
  rw [hfilter] at hbetween
  generalize between.filter (names.contains ·.1) = found at hbetween hfields'
  cases json with
  | none =>
    cases hbetween
    exact ⟨none, by rw [pick, List.perm_nil.1 hfields'], .none⟩
  | some j =>
    obtain _ | ⟨_, hj, _ | _⟩ := hbetween
    exact ⟨_, by rw [pick, List.perm_singleton.1 hfields'], .some hj⟩

theorem exists_of_mem_ofFields {fields : List Field} {e : String × Json} (h : e ∈ ofFields fields) :
    ∃ x ∈ fields, e.1 = x.key ∧ e.2 ∈ x.json := by
  obtain ⟨x, hx, he⟩ := List.mem_flatMap.1 h
  cases hjson : x.json with
  | none => rw [hjson] at he; cases he
  | some j =>
    rw [hjson] at he
    obtain rfl := List.mem_singleton.1 he
    exact ⟨x, hx, rfl, hjson⟩

theorem filter_ofFields_eq_nil {fields : List Field} {names : List String}
    (h : ∀ x ∈ fields, x.names.Disjoint names) :
    (ofFields fields).filter (names.contains ·.1) = [] := by
  refine List.filter_eq_nil_iff.2 fun e he hmem => ?_
  obtain ⟨x, hx, hkey, -⟩ := exists_of_mem_ofFields he
  exact h x hx (hkey ▸ List.mem_cons_self) (List.contains_iff_mem.1 hmem)

/-- Among the fields of a record, the names of one find that one. -/
theorem filter_ofFields {fields : List Field} (hnames : (fields.flatMap Field.names).Nodup)
    {x : Field} (hx : x ∈ fields) :
    (ofFields fields).filter (x.names.contains ·.1) = fieldIfSome x.key id x.json := by
  obtain ⟨front, back, rfl⟩ := List.append_of_mem hx
  obtain ⟨-, hback, hfront⟩ := List.pairwise_append.1 (List.nodup_flatMap.1 hnames).2
  have hown : (fieldIfSome x.key id x.json).filter (x.names.contains ·.1) =
      fieldIfSome x.key id x.json := by
    cases x.json with
    | none => rfl
    | some j => simp
  have hfront := filter_ofFields_eq_nil fun y hy => hfront y hy x List.mem_cons_self
  have hback := filter_ofFields_eq_nil fun y hy =>
    List.disjoint_symm ((List.pairwise_cons.1 hback).1 y hy)
  rw [ofFields] at hfront hback
  rw [ofFields, List.flatMap_append, List.flatMap_cons, List.filter_append, List.filter_append,
    hfront, hback, hown, List.nil_append, List.append_nil]

theorem nodup_ofFields {fields : List Field} (hnames : (fields.flatMap Field.names).Nodup) :
    ((ofFields fields).map Prod.fst).Nodup := by
  refine List.Sublist.nodup ?_ hnames
  induction fields with
  | nil => exact .slnil
  | cons x rest ih =>
    rw [ofFields_cons, List.flatMap_cons, List.map_append]
    refine List.Sublist.append ?_ (ih (List.nodup_append.1 hnames).2.1)
    cases x.json with
    | none => exact List.nil_sublist _
    | some j => exact List.Sublist.cons_cons _ (List.nil_sublist _)

/-! ## Records -/

theorem record?_read (form : Form) {fields : List Field} {j : Json}
    (hnames : (fields.flatMap Field.names).Nodup) (hj : Rearranged j (.object (ofFields fields))) :
    ∃ fields' values, j = .object fields' ∧ form.record? (fields.map Field.names) j = some values ∧
      List.Forall₂ (fun json x => x.Reads json) values fields := by
  cases hj with
  | @object fields' _ _ hperm h =>
    have hpick : ∀ x ∈ fields, ∃ json, pick fields' x.names = some json ∧ x.Reads json := by
      intro x hx
      obtain ⟨json, hpick, hrel⟩ := pick_rearranged hperm h (filter_ofFields hnames hx)
      exact ⟨json, hpick, x.read hrel⟩
    obtain ⟨values, hvalues, hreads⟩ :=
      mapM_of_forall₂ (List.forall₂_map_left_iff.2 (List.forall₂_same.2 hpick))
    exact ⟨fields', values, rfl, (record?_object form _ fields').trans hvalues, hreads⟩

@[simp] def AllReadings : List Field → (List (Option Json) → Prop) → Prop
  | [], P => P []
  | x :: rest, P => ∀ json, x.Reads json → AllReadings rest fun values => P (json :: values)

theorem AllReadings.of_forall₂ {fields : List Field} {values : List (Option Json)}
    {P : List (Option Json) → Prop} (h : AllReadings fields P)
    (hvalues : List.Forall₂ (fun json x => x.Reads json) values fields) : P values := by
  induction hvalues generalizing P with
  | nil => exact h
  | cons hx _ ih => exact ih (h _ hx)

theorem distinctNames_ofFields {fields : List Field} (hnames : (fields.flatMap Field.names).Nodup) :
    (Json.object (ofFields fields)).DistinctNames := by
  refine ⟨nodup_ofFields hnames, fieldsDistinctNames_iff.2 fun e he => ?_⟩
  obtain ⟨x, -, -, hjson⟩ := exists_of_mem_ofFields he
  exact x.distinct _ hjson

theorem isReadable_ofFields (fields : List Field) :
    (Json.object (ofFields fields)).isReadable = true := by
  refine fieldsReadable_iff.2 fun e he => ?_
  obtain ⟨x, -, -, hjson⟩ := exists_of_mem_ofFields he
  exact x.readable _ hjson

/-- A decoder that puts together what is read from the fields of a record. -/
theorem Decodes.record {f : Json → Option α} {j : Json} {a : α} (form : Form) (fields : List Field)
    (hnames : (fields.flatMap Field.names).Nodup) (hj : j = .object (ofFields fields))
    (hread : AllReadings fields fun values => ∀ fields',
      form.record? (fields.map Field.names) (.object fields') = some values →
        f (.object fields') = some a) : Decodes f j a where
  distinct := hj ▸ distinctNames_ofFields hnames
  readable := hj ▸ isReadable_ofFields fields
  read hj' := by
    obtain ⟨fields', values, rfl, hvalues, hreads⟩ := record?_read form hnames (hj ▸ hj')
    exact hread.of_forall₂ hreads fields' hvalues

/-! ## Cases -/

section Tagged

variable {name contentKey : String} {content : Option Json}

@[reducible] def caseFields (name contentKey : String) (content : Option Json)
    (distinct : ∀ j ∈ content, j.DistinctNames) (readable : ∀ j ∈ content, j.isReadable = true) :
    List Field :=
  [.arranged "type" (some (.string name)) (by rintro _ ⟨⟩; trivial) (by rintro _ ⟨⟩; rfl),
    .arranged contentKey content distinct readable]

/-- Content in front of the name is kept until the name is known, and can be kept as it is
readable. -/
theorem tagged?_read {form : Form} {distinct : ∀ j ∈ content, j.DistinctNames}
    {readable : ∀ j ∈ content, j.isReadable = true} {j : Json} (hkey : "type" ≠ contentKey)
    (hj : Rearranged j
      (.object (ofFields (caseFields name contentKey content distinct readable)))) :
    ∃ content' inner, Option.Rel Rearranged content' content ∧
      ∀ cases, form.tagged? cases contentKey j = some ⟨name, content', inner⟩ := by
  obtain ⟨fields', _, rfl, hrecord, _ | ⟨htag, _ | ⟨hcontent, _ | _⟩⟩⟩ :=
    record?_read form (by simpa using hkey) hj
  rename_i content'
  obtain ⟨⟨⟩⟩ | _ := htag
  have hrecord : form.record? [["type"], [contentKey]] (.object fields') =
      some [some (.string name), content'] := hrecord
  have hall : content'.all isReadable = true := by
    cases hcontent with
    | none => rfl
    | some hcontent => exact hcontent.isReadable (readable _ rfl)
  refine ⟨content', form.ofContent contentKey fields', hcontent, fun cases => ?_⟩
  simp only [Form.tagged?, hrecord, hall]
  rw [if_neg (by simp)]
  rfl

end Tagged

namespace Decodes

variable {f : Json → Option α} {g : Json → Option β} {j content : Json} {a : α} {b : β}

theorem case {name contentKey : String} (form : Form) (content : Option Json)
    (distinct : ∀ j ∈ content, j.DistinctNames) (readable : ∀ j ∈ content, j.isReadable = true)
    (hkey : "type" ≠ contentKey)
    (hj : j = .object (ofFields (caseFields name contentKey content distinct readable)))
    (hread : ∀ j content' inner, Option.Rel Rearranged content' content →
      (∀ cases, form.tagged? cases contentKey j = some ⟨name, content', inner⟩) → f j = some a) :
    Decodes f j a where
  distinct := hj ▸ distinctNames_ofFields (by simpa using hkey)
  readable := hj ▸ isReadable_ofFields _
  read hj' := by
    obtain ⟨content', inner, hcontent, htagged⟩ := tagged?_read hkey (hj ▸ hj')
    exact hread _ content' inner hcontent htagged

/-- A decoder of cases that are named beside their content. -/
theorem tagged {read : Form → Json → Option β} {name contentKey : String} (form : Form)
    (h : ∀ form, Decodes (read form) content b) (hkey : "type" ≠ contentKey)
    (hj : j = .object [("type", .string name), (contentKey, content)])
    (hread : ∀ j content inner, required (read inner) content = some b →
      (∀ cases, form.tagged? cases contentKey j = some ⟨name, content, inner⟩) → f j = some a) :
    Decodes f j a := by
  refine .case form (some content) (by rintro _ ⟨⟩; exact (h form).distinct)
    (by rintro _ ⟨⟩; exact (h form).readable) hkey hj fun j _ inner hcontent htagged => ?_
  obtain hcontent | _ := hcontent
  exact hread j (some _) inner ((h inner).read hcontent) htagged

/-- A case without content among cases that are named beside it. -/
theorem untagged {name : String} (form : Form) (contentKey : String) (hkey : "type" ≠ contentKey)
    (hj : j = .object [("type", .string name)])
    (hread : ∀ j inner, (∀ cases, form.tagged? cases contentKey j = some ⟨name, none, inner⟩) →
      f j = some a) : Decodes f j a := by
  refine .case form none nofun nofun hkey hj fun j _ inner hcontent htagged => ?_
  obtain _ | _ := hcontent
  exact hread j inner htagged

/-- A decoder of cases that are written as a field from their name to their content. -/
theorem variant {name : String} (h : Decodes g content b) (hj : j = .object [(name, content)])
    (hread : ∀ j content, variant? j = some (name, content) → required g content = some b →
      f j = some a) : Decodes f j a where
  distinct := by subst hj; exact ⟨List.nodup_singleton name, h.distinct, trivial⟩
  readable := by subst hj; simp [isReadable, fieldsReadable, h.readable]
  read hj' := by
    subst hj
    obtain _ | _ | _ | _ | _ | _ | ⟨hperm, _ | ⟨_, hcontent, _ | _⟩⟩ := hj'
    obtain rfl := List.perm_singleton.1 hperm
    exact hread _ _ rfl (h.read hcontent)

end Decodes

end Sitewright.Json
