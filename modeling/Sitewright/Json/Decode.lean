import Sitewright.Json.Basic

/-!
# Decoding JSON values

A decoder is a function from a value to an option. Records decode from an object, whose unknown
fields are ignored and whose known ones occur at most once, or from an array of their fields in
order, of which the last may be missing. Maps and documents take the last of repeated keys. What
else is accepted depends on the form in which a value is given.
-/

namespace Sitewright.Json

variable {α β : Type}

inductive Form
  /-- A JSON value that is decoded where it stands. -/
  | plain
  /-- The content of a case, or a part of it, that stands before the name of the case. It is kept as
  a whole until the name is known, so all of it has to be readable. -/
  | kept
  /-- A part of a TOML document. -/
  | toml
  deriving Repr, DecidableEq, Inhabited

mutual
def depth : Json → Nat
  | .array items => itemsDepth items + 1
  | .object fields => fieldsDepth fields + 1
  | _ => 0

def itemsDepth : List Json → Nat
  | [] => 0
  | item :: rest => max item.depth (itemsDepth rest)

def fieldsDepth : List (String × Json) → Nat
  | [] => 0
  | (_, value) :: rest => max value.depth (fieldsDepth rest)
end

def string? : Json → Option String
  | .string s => some s
  | _ => none

def bool? : Json → Option Bool
  | .bool b => some b
  | _ => none

def natural? : Json → Option Nat
  | .number (.integer n) => if 0 ≤ n then some n.toNat else none
  | _ => none

def list? (f : Json → Option α) : Json → Option (List α)
  | .array items => items.mapM f
  | _ => none

def pair? (f : Json → Option α) (g : Json → Option β) : Json → Option (α × β)
  | .array [a, b] => do pure (← f a, ← g b)
  | _ => none

def table? (f : Json → Option α) : Json → Option (Table α)
  | .object fields => (fields.mapM fun e => (f e.2).map fun v => (e.1, v)).map Table.ofList
  | _ => none

def Form.isNothing : Form → Json → Bool
  | .plain, .null => true
  | .kept, .null | .kept, .object [] => true
  | .toml, .object [] | .toml, .array [] => true
  | _, _ => false

/-- The values of the fields of a record, by the names that each field may have. In TOML an array
may hold more than the fields. -/
def Form.record? (form : Form) (names : List (List String)) : Json → Option (List (Option Json))
  | .object fields => names.mapM fun aliases =>
    match fields.filter (aliases.contains ·.1) with
    | [] => some none
    | [e] => some (some e.2)
    | _ => none
  | .array items =>
    if items.length ≤ names.length ∨ form = .toml then
      some ((items.map some ++ List.replicate (names.length - items.length) none).take names.length)
    else none
  | _ => none

def record? (names : List (List String)) (j : Json) : Option (List (Option Json)) :=
  Form.plain.record? names j

def required (f : Json → Option α) (field : Option Json) : Option α := field.bind f

def defaulted (f : Json → Option α) (value : α) : Option Json → Option α
  | none => some value
  | some j => f j

/-- A field that may be absent or null. -/
def nullable (f : Json → Option α) : Option Json → Option (Option α)
  | none | some .null => some none
  | some j => (f j).map some

def Form.word? (form : Form) : Json → Option String
  | .string s => some s
  | .object [(s, content)] => if form.isNothing content then some s else none
  | _ => none

def word? (j : Json) : Option String := Form.plain.word? j

structure Tagged where
  name : String
  content : Option Json
  form : Form

def Form.ofContent (form : Form) (contentKey : String) (fields : List (String × Json)) : Form :=
  match fields.find? fun e => e.1 = "type" || e.1 = contentKey with
  | some (key, _) => if key = contentKey then .kept else form
  | none => form

/-- The name of a case in front of its content. In a kept value its number is enough. -/
def Form.leadingWord? (form : Form) (cases : List String) (j : Json) : Option String :=
  match j with
  | .string s => some s
  | other => if form = .kept then other.natural?.bind fun n => cases[n]? else none

/-- One of some cases, named by the field `type`, with its content in the field `contentKey`, or an
array of both. -/
def Form.tagged? (form : Form) (cases : List String) (contentKey : String) (j : Json) :
    Option Tagged :=
  match j with
  | .array (_ :: _ :: _) =>
    match form.record? [["type"], [contentKey]] j with
    | some [some tag, content] => (form.leadingWord? cases tag).map (⟨·, content, form⟩)
    | _ => none
  | .object fields =>
    match form.record? [["type"], [contentKey]] j with
    | some [some tag, content] => do
      let inner := form.ofContent contentKey fields
      if inner = .kept ∧ !(content.all isReadable) then none
      else pure ⟨← form.word? tag, content, inner⟩
    | _ => none
  | _ => none

/-- A case written as its name, or as an object of one field from its name to its content. -/
def variant? : Json → Option (String × Option Json)
  | .string s => some (s, none)
  | .object [(s, content)] => some (s, some content)
  | _ => none

/-- A value that is an object. The fields of a case are not written as an array. -/
def object? : Json → Option Json
  | .object fields => some (.object fields)
  | _ => none

def noContent : Option Json → Option Unit
  | none | some .null => some ()
  | _ => none

/-! ## Encoding -/

def ofOption (f : α → Json) : Option α → Json
  | none => .null
  | some a => f a

def ofItems (f : α → Json) (items : List α) : Json := .array (items.map f)

def ofTable (f : α → Json) (t : Table α) : Json := .object (t.map f).entries

def ofStrings (items : List String) : Json := ofItems .string items

def ofStringTable (t : Table String) : Json := ofTable .string t

def fieldIfSome (key : String) (f : α → Json) : Option α → List (String × Json)
  | none => []
  | some a => [(key, f a)]

end Sitewright.Json
