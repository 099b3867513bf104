import Sitewright.Json.Basic
import Sitewright.Number.Decimal

/-!
# Writing JSON

Compact text has no spaces; pretty text has one item or field a line, two spaces deeper than its
container. Strings escape the quote, the backslash and the control characters below the space.
-/

namespace Sitewright.Json

def escaped (c : Char) : List Char :=
  if c = '"' then ['\\', '"']
  else if c = '\\' then ['\\', '\\']
  else if c = '\n' then ['\\', 'n']
  else if c = '\r' then ['\\', 'r']
  else if c = '\t' then ['\\', 't']
  else if c = '\x08' then ['\\', 'b']
  else if c = '\x0c' then ['\\', 'f']
  else if c.toNat < 0x20 then
    ['\\', 'u', '0', '0', Nat.digitChar (c.toNat / 16), Nat.digitChar (c.toNat % 16)]
  else [c]

def quoted (s : String) : String := String.ofList ('"' :: s.toList.flatMap escaped ++ ['"'])

/-- Where doubles change their notation: the decimal exponents of the first digit that are written
positionally run from `lowest` to `highest`. -/
structure DoubleFormat where
  lowest : Int
  highest : Int

/-- Doubles from 10^-5 up to 10^16 are written positionally. -/
def doubleFormat : DoubleFormat := ⟨-5, 15⟩

/-- Decimal digits with an exponent: at least one place when positional, a signed exponent
otherwise. -/
def DoubleFormat.write (format : DoubleFormat) (d : Decimal) : List Char :=
  let ds := digitsOf d.digits
  let point : Int := ds.length + d.exponent
  let leading := point - 1
  if d.digits = 0 then ['0', '.', '0']
  else if leading < format.lowest ∨ format.highest < leading then
    let sign := if leading < 0 then '-' else '+'
    let fraction := match ds.drop 1 with
      | [] => []
      | rest => '.' :: rest
    ds.take 1 ++ fraction ++ 'e' :: sign :: digitsOf leading.natAbs
  else if point ≤ 0 then '0' :: '.' :: List.replicate point.natAbs '0' ++ ds
  else if 0 ≤ d.exponent then ds ++ List.replicate d.exponent.natAbs '0' ++ ['.', '0']
  else ds.take point.natAbs ++ '.' :: ds.drop point.natAbs

def Number.text : Number → String
  | .integer n => toString n
  | .double d =>
    String.ofList ((if d.negative then ['-'] else []) ++ doubleFormat.write d.shortest)

mutual
def compact : Json → String
  | .null | .unreadable => "null"
  | .bool b => if b then "true" else "false"
  | .number n => n.text
  | .string s => quoted s
  | .array items => "[" ++ compactItems items ++ "]"
  | .object fields => "\x7b" ++ compactFields fields ++ "\x7d"

def compactItems : List Json → String
  | [] => ""
  | [item] => item.compact
  | item :: rest => item.compact ++ "," ++ compactItems rest

def compactFields : List (String × Json) → String
  | [] => ""
  | [(key, value)] => quoted key ++ ":" ++ value.compact
  | (key, value) :: rest => quoted key ++ ":" ++ value.compact ++ "," ++ compactFields rest
end

def newline (depth : Nat) : String := String.ofList ('\n' :: List.replicate (2 * depth) ' ')

mutual
def prettyAt (depth : Nat) : Json → String
  | .null | .unreadable => "null"
  | .bool b => if b then "true" else "false"
  | .number n => n.text
  | .string s => quoted s
  | .array [] => "[]"
  | .array (item :: rest) =>
    "[" ++ newline (depth + 1) ++ item.prettyAt (depth + 1) ++ prettyItems (depth + 1) rest ++
      newline depth ++ "]"
  | .object [] => "\x7b\x7d"
  | .object ((key, value) :: rest) =>
    "\x7b" ++ newline (depth + 1) ++ quoted key ++ ": " ++ value.prettyAt (depth + 1) ++
      prettyFields (depth + 1) rest ++ newline depth ++ "\x7d"

def prettyItems (depth : Nat) : List Json → String
  | [] => ""
  | item :: rest => "," ++ newline depth ++ item.prettyAt depth ++ prettyItems depth rest

def prettyFields (depth : Nat) : List (String × Json) → String
  | [] => ""
  | (key, value) :: rest =>
    "," ++ newline depth ++ quoted key ++ ": " ++ value.prettyAt depth ++ prettyFields depth rest
end

def pretty (j : Json) : String := j.prettyAt 0

end Sitewright.Json
