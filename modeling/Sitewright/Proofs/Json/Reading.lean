import Mathlib.Data.List.Perm.Basic
import Sitewright.Proofs.Json.Arrangement

/-!
# What decoders make of encoded values

A decoder is said to decode a value as `a` if it makes `a` of each of its arrangements. There is one
lemma for each way in which values are encoded and decoded.
-/

namespace Sitewright.Json

variable {α β γ : Type}

/-! ## Depth -/

theorem depth_le_itemsDepth {items : List Json} {j : Json} (h : j ∈ items) :
    j.depth ≤ itemsDepth items := by
  induction items with
  | nil => cases h
  | cons item rest ih =>
    rw [itemsDepth]
    rcases List.mem_cons.1 h with rfl | h
    · exact le_max_left _ _
    · exact (ih h).trans (le_max_right _ _)

theorem depth_lt_of_mem {fields : List (String × Json)} {j : Json} (key : String)
    (h : (key, j) ∈ fields) : j.depth < (Json.object fields).depth := by
  rw [depth]
  refine Nat.lt_succ_of_le ?_
  induction fields with
  | nil => cases h
  | cons e rest ih =>
    rw [fieldsDepth]
    rcases List.mem_cons.1 h with rfl | h
    · exact le_max_left _ _
    · exact (ih h).trans (le_max_right _ _)

/-- One less is deep enough for the items of a list that stands inside a value. -/
theorem itemsDepth_lt {items : List Json} {d depth : Nat} (h : (Json.array items).depth < d)
    (hd : d ≤ depth + 1) : itemsDepth items < depth :=
  Nat.lt_of_succ_lt_succ (h.trans_le hd)

/-! ## Decoders and values -/

/-- `f` makes `a` of all arrangements of a value that can be read and repeats no name. -/
structure Decodes (f : Json → Option α) (j : Json) (a : α) : Prop where
  distinct : j.DistinctNames
  readable : j.isReadable = true
  read : ∀ {j' : Json}, Rearranged j' j → f j' = some a

/-- Values are read back from what is encoded of them, both with the fields of objects as they are
encoded and with the fields in name order. -/
def ReadsBack (enc : α → Json) (f : Json → Option α) : Prop :=
  ∀ a, f (enc a) = some a ∧ f (enc a).canonical = some a

theorem mapM_of_forall₂ {f : α → Option β} {P : β → γ → Prop} {as : List α} {cs : List γ}
    (h : List.Forall₂ (fun a c => ∃ b, f a = some b ∧ P b c) as cs) :
    ∃ bs, as.mapM f = some bs ∧ List.Forall₂ P bs cs := by
  induction h with
  | nil => exact ⟨[], rfl, .nil⟩
  | cons ha _ ih =>
    obtain ⟨b, hb, hP⟩ := ha
    obtain ⟨bs, hbs, hPs⟩ := ih
    exact ⟨b :: bs, by rw [List.mapM_cons, hb, hbs]; rfl, .cons hP hPs⟩

theorem mapM_eq_some_of_forall₂ {f : α → Option β} {as : List α} {bs : List β}
    (h : List.Forall₂ (fun a b => f a = some b) as bs) : as.mapM f = some bs := by
  obtain ⟨_, hmap, heq⟩ := mapM_of_forall₂ (h.imp fun _ b hb => ⟨b, hb, rfl⟩)
  rw [List.forall₂_eq_eq_eq] at heq
  rw [hmap, heq]

namespace Decodes

variable {f : Json → Option α} {g : Json → Option β} {j k : Json} {a : α} {b : β}

theorem readsBack {enc : α → Json} (h : ∀ a, Decodes f (enc a) a) : ReadsBack enc f :=
  fun a => ⟨(h a).read (.refl _), (h a).read (rearranged_canonical _ (h a).distinct)⟩

theorem ofString {s : String} (h : f (.string s) = some a) : Decodes f (.string s) a where
  distinct := trivial
  readable := rfl
  read hj := by cases hj; exact h

theorem string (s : String) : Decodes string? (.string s) s := .ofString rfl

theorem bool (b : Bool) : Decodes bool? (.bool b) b where
  distinct := trivial
  readable := rfl
  read hj := by cases hj; rfl

theorem document (d : Document) : Decodes Document.ofJson? d.value d where
  distinct := Ordered.distinctNames d.ordered
  readable := d.readable
  read hj := by
    rw [Document.ofJson?, dif_pos (hj.isReadable d.readable)]
    exact congrArg some (Document.ext (hj.canonical_eq d.ordered))

/-- A decoder that goes as deep as its value. -/
theorem atDepth {f : Nat → Json → Option α} (h : Decodes (f j.depth) j a) :
    Decodes (fun j => f j.depth j) j a where
  distinct := h.distinct
  readable := h.readable
  read hj := by rw [hj.depth_eq]; exact h.read hj

/-! ## Lists, pairs and tables -/

theorem forall₂_read {items' items : List Json} {values : List α}
    (h : List.Forall₂ (Decodes f) items values) (hitems : RearrangedItems items' items) :
    List.Forall₂ (fun j a => f j = some a) items' values := by
  induction h generalizing items' with
  | nil => cases hitems; exact .nil
  | cons h _ ih =>
    cases hitems with
    | cons hitem hrest => exact .cons (h.read hitem) (ih hrest)

theorem array {items : List Json} {values : List α} (h : List.Forall₂ (Decodes f) items values) :
    Decodes (list? f) (.array items) values where
  distinct := by
    induction h with
    | nil => trivial
    | cons h _ ih => exact ⟨h.distinct, ih⟩
  readable := by
    induction h with
    | nil => rfl
    | cons h _ ih => exact Bool.and_eq_true_iff.2 ⟨h.readable, ih⟩
  read hj := by
    cases hj with
    | array hitems => exact mapM_eq_some_of_forall₂ (forall₂_read h hitems)

theorem list {enc : α → Json} (values : List α) (h : ∀ a ∈ values, Decodes f (enc a) a) :
    Decodes (list? f) (ofItems enc values) values :=
  .array (List.forall₂_map_left_iff.2 (List.forall₂_same.2 h))

theorem strings (values : List String) : Decodes (list? string?) (ofStrings values) values :=
  .list values fun s _ => .string s

theorem pair (ha : Decodes f j a) (hb : Decodes g k b) :
    Decodes (pair? f g) (.array [j, k]) (a, b) where
  distinct := ⟨ha.distinct, hb.distinct, trivial⟩
  readable := by simp [isReadable, areReadable, ha.readable, hb.readable]
  read hj := by
    obtain _ | _ | _ | _ | _ | ⟨_ | ⟨hj, _ | ⟨hk, _ | _⟩⟩⟩ | _ := hj
    simp [pair?, ha.read hj, hb.read hk]

theorem forall₂_read_fields {enc : α → Json} {entries : List (String × α)}
    {fields : List (String × Json)} (h : ∀ e ∈ entries, Decodes f (enc e.2) e.2)
    (hfields : RearrangedFields fields (entries.map fun e => (e.1, enc e.2))) :
    List.Forall₂ (fun field e => ((f field.2).map fun a => (field.1, a)) = some e) fields
      entries := by
  induction entries generalizing fields with
  | nil => cases hfields; exact .nil
  | cons e rest ih =>
    cases hfields with
    | cons _ hvalue hrest =>
      refine .cons ?_ (ih (fun e he => h e (List.mem_cons_of_mem _ he)) hrest)
      rw [(h e List.mem_cons_self).read hvalue]
      rfl

theorem table {enc : α → Json} (t : Table α) (h : ∀ e ∈ t.entries, Decodes f (enc e.2) e.2) :
    Decodes (table? f) (ofTable enc t) t where
  distinct := by
    refine ⟨(t.map enc).nodup_keys, fieldsDistinctNames_iff.2 fun _ hmem => ?_⟩
    obtain ⟨e, he, rfl⟩ := List.mem_map.1 hmem
    exact (h e he).distinct
  readable := by
    refine fieldsReadable_iff.2 fun _ hmem => ?_
    obtain ⟨e, he, rfl⟩ := List.mem_map.1 hmem
    exact (h e he).readable
  read hj := by
    cases hj with
    | object hperm hfields =>
      -- the entries are found in the order of the fields, and sorted once they are all there
      have hread := forall₂_read_fields h hfields
      obtain ⟨entries, hentries, hsame⟩ := List.perm_comp_forall₂ hperm hread
      rw [table?, mapM_eq_some_of_forall₂ hentries, Option.map_some, Table.ofList_of_perm hsame]

theorem stringTable (t : Table String) : Decodes (table? string?) (ofStringTable t) t :=
  .table t fun e _ => .string e.2

end Decodes

end Sitewright.Json
