import Sitewright.Json.Decode
import Sitewright.Proofs.Table

/-!
# Values whose fields are in another order

One value is written in several ways: an object has its fields in the order of a record's
declaration, or in name order once the value has gone through a table. What a decoder makes of a
value should depend on neither.
-/

namespace Sitewright.Json

mutual
def DistinctNames : Json → Prop
  | .array items => AllDistinctNames items
  | .object fields => (fields.map Prod.fst).Nodup ∧ FieldsDistinctNames fields
  | _ => True

def AllDistinctNames : List Json → Prop
  | [] => True
  | item :: rest => item.DistinctNames ∧ AllDistinctNames rest

def FieldsDistinctNames : List (String × Json) → Prop
  | [] => True
  | (_, value) :: rest => value.DistinctNames ∧ FieldsDistinctNames rest
end

theorem fieldsDistinctNames_iff {fields : List (String × Json)} :
    FieldsDistinctNames fields ↔ ∀ e ∈ fields, e.2.DistinctNames := by
  induction fields with
  | nil => simp [FieldsDistinctNames]
  | cons e rest ih => simp [FieldsDistinctNames, ih]

mutual
/-- The first value is the second one with the fields of its objects in some order. -/
inductive Rearranged : Json → Json → Prop
  | null : Rearranged .null .null
  | bool (b : Bool) : Rearranged (.bool b) (.bool b)
  | number (n : Number) : Rearranged (.number n) (.number n)
  | string (s : String) : Rearranged (.string s) (.string s)
  | unreadable : Rearranged .unreadable .unreadable
  | array {items' items : List Json} (h : RearrangedItems items' items) :
      Rearranged (.array items') (.array items)
  | object {fields' between fields : List (String × Json)} (hperm : fields'.Perm between)
      (h : RearrangedFields between fields) : Rearranged (.object fields') (.object fields)

inductive RearrangedItems : List Json → List Json → Prop
  | nil : RearrangedItems [] []
  | cons {a' a : Json} {rest' rest : List Json} (h : Rearranged a' a)
      (hrest : RearrangedItems rest' rest) : RearrangedItems (a' :: rest') (a :: rest)

inductive RearrangedFields : List (String × Json) → List (String × Json) → Prop
  | nil : RearrangedFields [] []
  | cons (key : String) {a' a : Json} {rest' rest : List (String × Json)} (h : Rearranged a' a)
      (hrest : RearrangedFields rest' rest) :
      RearrangedFields ((key, a') :: rest') ((key, a) :: rest)
end

mutual
theorem Rearranged.refl : ∀ j : Json, Rearranged j j
  | .null => .null
  | .bool b => .bool b
  | .number n => .number n
  | .string s => .string s
  | .unreadable => .unreadable
  | .array items => .array (RearrangedItems.refl items)
  | .object fields => .object (.refl fields) (RearrangedFields.refl fields)

theorem RearrangedItems.refl : ∀ items : List Json, RearrangedItems items items
  | [] => .nil
  | item :: rest => .cons (Rearranged.refl item) (RearrangedItems.refl rest)

theorem RearrangedFields.refl : ∀ fields : List (String × Json), RearrangedFields fields fields
  | [] => .nil
  | (key, value) :: rest => .cons key (Rearranged.refl value) (RearrangedFields.refl rest)
end

theorem fieldsDepth_eq_of_perm {fields' fields : List (String × Json)} (h : fields'.Perm fields) :
    fieldsDepth fields' = fieldsDepth fields := by
  induction h with
  | nil => rfl
  | cons e _ ih => simp only [fieldsDepth, ih]
  | swap e₁ e₂ rest => simp only [fieldsDepth, Nat.max_left_comm]
  | trans _ _ ih₁ ih₂ => exact ih₁.trans ih₂

theorem fieldsReadable_of_perm {fields' fields : List (String × Json)} (h : fields'.Perm fields)
    (hreadable : fieldsReadable fields = true) : fieldsReadable fields' = true :=
  fieldsReadable_iff.2 fun e he => fieldsReadable_iff.1 hreadable e (h.mem_iff.1 he)

mutual
theorem Rearranged.depth_eq : ∀ {j' j : Json}, Rearranged j' j → j'.depth = j.depth
  | _, _, .null => rfl
  | _, _, .bool _ => rfl
  | _, _, .number _ => rfl
  | _, _, .string _ => rfl
  | _, _, .unreadable => rfl
  | _, _, .array h => congrArg (· + 1) h.depth_eq
  | _, _, .object hperm h =>
    congrArg (· + 1) ((fieldsDepth_eq_of_perm hperm).trans h.depth_eq)

theorem RearrangedItems.depth_eq : ∀ {items' items : List Json},
    RearrangedItems items' items → itemsDepth items' = itemsDepth items
  | _, _, .nil => rfl
  | _, _, .cons h hrest => by simp only [itemsDepth, h.depth_eq, hrest.depth_eq]

theorem RearrangedFields.depth_eq : ∀ {fields' fields : List (String × Json)},
    RearrangedFields fields' fields → fieldsDepth fields' = fieldsDepth fields
  | _, _, .nil => rfl
  | _, _, .cons _ h hrest => by simp only [fieldsDepth, h.depth_eq, hrest.depth_eq]
end

mutual
theorem Rearranged.isReadable :
    ∀ {j' j : Json}, Rearranged j' j → j.isReadable = true → j'.isReadable = true
  | _, _, .null, _ => rfl
  | _, _, .bool _, _ => rfl
  | _, _, .number _, _ => rfl
  | _, _, .string _, _ => rfl
  | _, _, .unreadable, h => h
  | _, _, .array h, hreadable => h.areReadable hreadable
  | _, _, .object hperm h, hreadable => fieldsReadable_of_perm hperm (h.fieldsReadable hreadable)

theorem RearrangedItems.areReadable : ∀ {items' items : List Json},
    RearrangedItems items' items → areReadable items = true → areReadable items' = true
  | _, _, .nil, _ => rfl
  | _, _, .cons h hrest, hreadable => by
    obtain ⟨hitem, hitems⟩ := Bool.and_eq_true_iff.1 hreadable
    exact Bool.and_eq_true_iff.2 ⟨h.isReadable hitem, hrest.areReadable hitems⟩

theorem RearrangedFields.fieldsReadable : ∀ {fields' fields : List (String × Json)},
    RearrangedFields fields' fields → fieldsReadable fields = true → fieldsReadable fields' = true
  | _, _, .nil, _ => rfl
  | _, _, .cons _ h hrest, hreadable => by
    obtain ⟨hvalue, hvalues⟩ := Bool.and_eq_true_iff.1 hreadable
    exact Bool.and_eq_true_iff.2 ⟨h.isReadable hvalue, hrest.fieldsReadable hvalues⟩
end

theorem canonicalFields_eq_map (fields : List (String × Json)) :
    canonicalFields fields = fields.map fun e => (e.1, e.2.canonical) := by
  induction fields with
  | nil => rfl
  | cons e rest ih => exact congrArg ((e.1, e.2.canonical) :: ·) ih

theorem map_fst_canonicalFields (fields : List (String × Json)) :
    (canonicalFields fields).map Prod.fst = fields.map Prod.fst := by
  rw [canonicalFields_eq_map, List.map_map]
  rfl

mutual
/-- The canonical form only puts fields into another order, unless it drops some. -/
theorem rearranged_canonical : ∀ j : Json, j.DistinctNames → Rearranged j.canonical j
  | .null, _ => .null
  | .bool b, _ => .bool b
  | .number n, _ => .number n
  | .string s, _ => .string s
  | .unreadable, _ => .unreadable
  | .array items, h => .array (rearrangedItems_canonical items h)
  | .object fields, h => by
    have hnodup : ((canonicalFields fields).map Prod.fst).Nodup :=
      (map_fst_canonicalFields fields).symm ▸ h.1
    exact .object (Table.entries_ofList_perm hnodup) (rearrangedFields_canonical fields h.2)

theorem rearrangedItems_canonical :
    ∀ items : List Json, AllDistinctNames items → RearrangedItems (canonicalItems items) items
  | [], _ => .nil
  | item :: rest, h => .cons (rearranged_canonical item h.1) (rearrangedItems_canonical rest h.2)

theorem rearrangedFields_canonical : ∀ fields : List (String × Json),
    FieldsDistinctNames fields → RearrangedFields (canonicalFields fields) fields
  | [], _ => .nil
  | (key, value) :: rest, h =>
    .cons key (rearranged_canonical value h.1) (rearrangedFields_canonical rest h.2)
end

mutual
/-- All arrangements of a value whose objects are tables have that value as their canonical form. -/
theorem Rearranged.canonical_eq :
    ∀ {j' j : Json}, Rearranged j' j → j.Ordered → j'.canonical = j
  | _, _, .null, _ => rfl
  | _, _, .bool _, _ => rfl
  | _, _, .number _, _ => rfl
  | _, _, .string _, _ => rfl
  | _, _, .unreadable, _ => rfl
  | _, _, .array h, hordered => congrArg Json.array (h.canonical_eq hordered)
  | _, .object fields, .object hperm h, hordered => by
    have hfields := h.canonical_eq hordered.2
    rw [canonicalFields_eq_map] at hfields
    have htable := Table.ofList_of_perm (t := ⟨fields, hordered.1⟩)
      ((hperm.map fun e => (e.1, e.2.canonical)).trans (.of_eq hfields))
    simp only [canonical, canonicalFields_eq_map, htable]

theorem RearrangedItems.canonical_eq : ∀ {items' items : List Json},
    RearrangedItems items' items → AllOrdered items → canonicalItems items' = items
  | _, _, .nil, _ => rfl
  | _, _, .cons h hrest, hordered => by
    simp only [canonicalItems, h.canonical_eq hordered.1, hrest.canonical_eq hordered.2]

theorem RearrangedFields.canonical_eq : ∀ {fields' fields : List (String × Json)},
    RearrangedFields fields' fields → FieldsOrdered fields → canonicalFields fields' = fields
  | _, _, .nil, _ => rfl
  | _, _, .cons _ h hrest, hordered => by
    simp only [canonicalFields, h.canonical_eq hordered.1, hrest.canonical_eq hordered.2]
end

mutual
theorem Ordered.distinctNames : ∀ {j : Json}, j.Ordered → j.DistinctNames
  | .null, _ => trivial
  | .bool _, _ => trivial
  | .number _, _ => trivial
  | .string _, _ => trivial
  | .unreadable, _ => trivial
  | .array _, h => AllOrdered.distinctNames h
  | .object fields, h => ⟨(⟨fields, h.1⟩ : Table Json).nodup_keys, FieldsOrdered.distinctNames h.2⟩

theorem AllOrdered.distinctNames : ∀ {items : List Json}, AllOrdered items → AllDistinctNames items
  | [], _ => trivial
  | _ :: _, h => ⟨Ordered.distinctNames h.1, AllOrdered.distinctNames h.2⟩

theorem FieldsOrdered.distinctNames :
    ∀ {fields : List (String × Json)}, FieldsOrdered fields → FieldsDistinctNames fields
  | [], _ => trivial
  | _ :: _, h => ⟨Ordered.distinctNames h.1, FieldsOrdered.distinctNames h.2⟩
end

end Sitewright.Json
