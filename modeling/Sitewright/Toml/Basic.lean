import Sitewright.Json.Basic

/-!
# TOML documents

Tables remember how they came about, since that decides whether later lines may add to them: a table
with a header has all its own keys under that header, a dotted key may only reach into tables made
by dotted keys, and inline tables are closed.
-/

namespace Sitewright

inductive Toml.Origin
  | inline
  /-- The table has a header, or is the document itself. -/
  | header
  /-- Only the header of a table inside it has been written. -/
  | implied
  | dotted
  deriving Repr, DecidableEq, Inhabited

inductive Toml
  | string (s : String)
  | integer (n : Int)
  /-- A float; its value is not kept. -/
  | float
  | boolean (b : Bool)
  | dateTime (text : String)
  | array (items : List Toml)
  | table (origin : Toml.Origin) (entries : List (String × Toml))
  /-- The tables of the headers in double brackets. -/
  | tables (elements : List Toml)
  deriving Repr, Inhabited

namespace Toml

/-- Entries with another value under a key, at the end if there is none yet. -/
def assign (key : String) (value : Toml) : List (String × Toml) → List (String × Toml)
  | [] => [(key, value)]
  | (k, v) :: rest => if k = key then (key, value) :: rest else (k, v) :: assign key value rest

/-- Change the entries of the table at a path. Missing tables are made with the origin `made`; a
table of the document that has a header cannot be reached by dotted keys. -/
def changeAt (made : Origin) (change : List (String × Toml) → Option (List (String × Toml))) :
    List String → List (String × Toml) → Option (List (String × Toml))
  | [], entries => change entries
  | key :: path, entries =>
    match entries.lookup key with
    | none => (changeAt made change path []).map fun inner => assign key (.table made inner) entries
    | some (.table origin inner) =>
      if origin = .inline ∨ (made = .dotted ∧ origin = .header) then none
      else (changeAt made change path inner).map fun inner =>
        assign key (.table origin inner) entries
    | some (.tables elements) =>
      match elements.getLast? with
      | some (.table origin inner) =>
        (changeAt made change path inner).map fun inner =>
          assign key (.tables (elements.dropLast ++ [.table origin inner])) entries
      | _ => none
    | some _ => none

def addKey (key : String) (value : Toml) (entries : List (String × Toml)) :
    Option (List (String × Toml)) :=
  if (entries.lookup key).isSome then none else some (entries ++ [(key, value)])

def isDottedAt : List String → List (String × Toml) → Bool
  | [], _ => false
  | [key], entries =>
    match entries.lookup key with
    | some (.table .dotted _) | none => true
    | _ => false
  | key :: path, entries =>
    match entries.lookup key with
    | some (.table _ inner) => isDottedAt path inner
    | some (.tables elements) =>
      match elements.getLast? with
      | some (.table _ inner) => isDottedAt path inner
      | _ => false
    | none => true
    | _ => false

def addDotted (path : List String) (key : String) (value : Toml)
    (entries : List (String × Toml)) : Option (List (String × Toml)) :=
  if path.isEmpty ∨ isDottedAt path entries then changeAt .dotted (addKey key value) path entries
  else none

/-- Open the table of a header. It may have been implied before, but not written; then it comes
last from now on. -/
def openTable (key : String) (entries : List (String × Toml)) : Option (List (String × Toml)) :=
  match entries.lookup key with
  | none => some (entries ++ [(key, .table .header [])])
  | some (.table .implied inner) =>
    some (entries.filter (·.1 ≠ key) ++ [(key, .table .header inner)])
  | some _ => none

def openElement (key : String) (entries : List (String × Toml)) : Option (List (String × Toml)) :=
  match entries.lookup key with
  | none => some (entries ++ [(key, .tables [.table .header []])])
  | some (.tables elements) =>
    some (assign key (.tables (elements ++ [.table .header []])) entries)
  | some _ => none

mutual
/-- A document as JSON. A date or time is an object with one field that no record has. -/
def toJson : Toml → Json
  | .string s => .string s
  | .integer n => .number (.integer n)
  | .float => .number (.double (.zero false))
  | .boolean b => .bool b
  | .dateTime text => .object [("$__toml_private_datetime", .string text)]
  | .array items => .array (itemsToJson items)
  | .table _ entries => .object (entriesToJson entries)
  | .tables elements => .array (itemsToJson elements)

def itemsToJson : List Toml → List Json
  | [] => []
  | item :: rest => item.toJson :: itemsToJson rest

def entriesToJson : List (String × Toml) → List (String × Json)
  | [] => []
  | (key, value) :: rest => (key, value.toJson) :: entriesToJson rest
end

end Toml

end Sitewright
