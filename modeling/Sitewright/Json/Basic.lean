import Sitewright.Number.Double
import Sitewright.Table

/-!
# JSON values

A `Json` value keeps the fields of an object in the order, and as often, as they were written. A
`Json.Document` is a value whose objects are tables: names in order, none twice.
-/

namespace Sitewright

/-- A JSON number: an integer of at most 64 bits, or else a double. -/
inductive Json.Number
  | integer (n : Int)
  | double (d : Double)
  deriving Repr, DecidableEq, Inhabited

/-- A JSON value. An `unreadable` one is well formed as text and can be skipped, but not read: a
string with half a surrogate pair, a number too large for a double, or a container nested too
deep. -/
inductive Json
  | null
  | bool (b : Bool)
  | number (n : Json.Number)
  | string (s : String)
  | array (items : List Json)
  | object (fields : List (String × Json))
  | unreadable
  deriving Repr, Inhabited

namespace Json

mutual
/-- The value with the fields of all its objects in name order, the last one under a name alone. -/
def canonical : Json → Json
  | .array items => .array (canonicalItems items)
  | .object fields => .object (Table.ofList (canonicalFields fields)).entries
  | other => other

def canonicalItems : List Json → List Json
  | [] => []
  | item :: rest => item.canonical :: canonicalItems rest

def canonicalFields : List (String × Json) → List (String × Json)
  | [] => []
  | (key, value) :: rest => (key, value.canonical) :: canonicalFields rest
end

mutual
def isReadable : Json → Bool
  | .array items => areReadable items
  | .object fields => fieldsReadable fields
  | .unreadable => false
  | _ => true

def areReadable : List Json → Bool
  | [] => true
  | item :: rest => item.isReadable && areReadable rest

def fieldsReadable : List (String × Json) → Bool
  | [] => true
  | (_, value) :: rest => value.isReadable && fieldsReadable rest
end

mutual
/-- Whether every object lists its fields in strictly increasing name order. -/
def Ordered : Json → Prop
  | .array items => AllOrdered items
  | .object fields => SortedByName fields ∧ FieldsOrdered fields
  | _ => True

def AllOrdered : List Json → Prop
  | [] => True
  | item :: rest => item.Ordered ∧ AllOrdered rest

def FieldsOrdered : List (String × Json) → Prop
  | [] => True
  | (_, value) :: rest => value.Ordered ∧ FieldsOrdered rest
end

theorem fieldsOrdered_iff {fields : List (String × Json)} :
    FieldsOrdered fields ↔ ∀ e ∈ fields, e.2.Ordered := by
  induction fields with
  | nil => simp [FieldsOrdered]
  | cons e rest ih => simp [FieldsOrdered, ih]

mutual
theorem ordered_canonical : ∀ j : Json, j.canonical.Ordered
  | .null => trivial
  | .bool _ => trivial
  | .number _ => trivial
  | .string _ => trivial
  | .unreadable => trivial
  | .array items => by
    simpa [canonical, Ordered] using allOrdered_canonicalItems items
  | .object fields => by
    simp only [canonical, Ordered]
    exact ⟨(Table.ofList (canonicalFields fields)).sorted,
      fieldsOrdered_iff.2 fun e he =>
        fieldsOrdered_iff.1 (fieldsOrdered_canonicalFields fields) e (Table.mem_of_mem_ofList he)⟩

theorem allOrdered_canonicalItems : ∀ items : List Json, AllOrdered (canonicalItems items)
  | [] => trivial
  | item :: rest => ⟨ordered_canonical item, allOrdered_canonicalItems rest⟩

theorem fieldsOrdered_canonicalFields :
    ∀ fields : List (String × Json), FieldsOrdered (canonicalFields fields)
  | [] => trivial
  | (_, value) :: rest => ⟨ordered_canonical value, fieldsOrdered_canonicalFields rest⟩
end

mutual
theorem canonical_eq_of_ordered : ∀ j : Json, j.Ordered → j.canonical = j
  | .null, _ => rfl
  | .bool _, _ => rfl
  | .number _, _ => rfl
  | .string _, _ => rfl
  | .unreadable, _ => rfl
  | .array items, h => by
    simp only [canonical, canonicalItems_eq_of_ordered items h]
  | .object fields, h => by
    simp only [canonical, canonicalFields_eq_of_ordered fields h.2,
      Table.entries_ofList_of_sorted h.1]

theorem canonicalItems_eq_of_ordered :
    ∀ items : List Json, AllOrdered items → canonicalItems items = items
  | [], _ => rfl
  | item :: rest, h => by
    simp only [canonicalItems, canonical_eq_of_ordered item h.1,
      canonicalItems_eq_of_ordered rest h.2]

theorem canonicalFields_eq_of_ordered :
    ∀ fields : List (String × Json), FieldsOrdered fields → canonicalFields fields = fields
  | [], _ => rfl
  | (key, value) :: rest, h => by
    simp only [canonicalFields, canonical_eq_of_ordered value h.1,
      canonicalFields_eq_of_ordered rest h.2]
end

theorem fieldsReadable_iff {fields : List (String × Json)} :
    fieldsReadable fields = true ↔ ∀ e ∈ fields, e.2.isReadable = true := by
  induction fields with
  | nil => simp [fieldsReadable]
  | cons e rest ih => simp [fieldsReadable, ih]

mutual
theorem isReadable_canonical : ∀ j : Json, j.isReadable = true → j.canonical.isReadable = true
  | .null, _ => rfl
  | .bool _, _ => rfl
  | .number _, _ => rfl
  | .string _, _ => rfl
  | .unreadable, h => h
  | .array items, h => areReadable_canonicalItems items h
  | .object fields, h =>
    fieldsReadable_iff.2 fun e he =>
      fieldsReadable_iff.1 (fieldsReadable_canonicalFields fields h) e (Table.mem_of_mem_ofList he)

theorem areReadable_canonicalItems : ∀ items : List Json,
    areReadable items = true → areReadable (canonicalItems items) = true
  | [], _ => rfl
  | item :: rest, h => by
    obtain ⟨hitem, hrest⟩ := Bool.and_eq_true_iff.1 h
    exact Bool.and_eq_true_iff.2
      ⟨isReadable_canonical item hitem, areReadable_canonicalItems rest hrest⟩

theorem fieldsReadable_canonicalFields : ∀ fields : List (String × Json),
    fieldsReadable fields = true → fieldsReadable (canonicalFields fields) = true
  | [], _ => rfl
  | (_, value) :: rest, h => by
    obtain ⟨hvalue, hrest⟩ := Bool.and_eq_true_iff.1 h
    exact Bool.and_eq_true_iff.2
      ⟨isReadable_canonical value hvalue, fieldsReadable_canonicalFields rest hrest⟩
end

/-- A JSON value that can be read in all its parts and whose objects are tables. -/
structure Document where
  value : Json
  ordered : value.Ordered
  readable : value.isReadable = true

namespace Document

theorem ext {a b : Document} (h : a.value = b.value) : a = b := by
  cases a; cases b; cases h; rfl

def ofJson (j : Json) (h : j.isReadable = true) : Document :=
  ⟨j.canonical, ordered_canonical j, isReadable_canonical j h⟩

def ofJson? (j : Json) : Option Document :=
  if h : j.isReadable = true then some (ofJson j h) else none

theorem ofJson?_value (d : Document) : ofJson? d.value = some d := by
  rw [ofJson?, dif_pos d.readable]
  exact congrArg some (ext (canonical_eq_of_ordered d.value d.ordered))

def null : Document := ⟨.null, trivial, rfl⟩

instance : Inhabited Document := ⟨null⟩

end Document

end Json

end Sitewright
