import Sitewright.Json.Token
import Sitewright.Text.Basic
import Sitewright.Toml.Basic

/-!
# Numbers, dates and other plain values of TOML

Each reader takes a whole word.
-/

namespace Sitewright.Toml

/-- Digits with single underscores between them, without the underscores. -/
def digits? (isDigit : Char → Bool) (s : List Char) : Option (List Char) :=
  if (pieces '_' s).all fun part => !part.isEmpty && part.all isDigit then
    some (s.filter (· ≠ '_'))
  else none

def baseValue (base : Nat) (ds : List Char) : Nat :=
  ds.foldl (fun n d => n * base + (Json.hexValue? d).getD 0) 0

def splitSign : List Char → Bool × List Char
  | '-' :: rest => (true, rest)
  | '+' :: rest => (false, rest)
  | s => (false, s)

/-- Decimal digits that do not begin with a zero, unless that is all. -/
def wholeDigits? (s : List Char) : Option (List Char) :=
  match s with
  | '0' :: _ :: _ => none
  | s => digits? Char.isDigit s

def integer? (s : List Char) : Option Int :=
  let unsigned (base : Nat) (isDigit : Char → Bool) (ds : List Char) : Option Int := do
    let n := baseValue base (← digits? isDigit ds)
    if n < Nat.pow 2 63 then some n else none
  match s with
  | '0' :: 'x' :: ds => unsigned 16 (fun c => (Json.hexValue? c).isSome) ds
  | '0' :: 'o' :: ds => unsigned 8 (fun c => '0' ≤ c ∧ c ≤ '7') ds
  | '0' :: 'b' :: ds => unsigned 2 (fun c => c = '0' ∨ c = '1') ds
  | s => do
    let (negative, ds) := splitSign s
    let n := baseValue 10 (← wholeDigits? ds)
    if negative then (if n ≤ Nat.pow 2 63 then some (-n) else none)
    else if n < Nat.pow 2 63 then some n else none

def exponentDigits? (s : List Char) : Option (List Char) := digits? Char.isDigit (splitSign s).2

def isTooLarge (whole places : List Char) (exponent : Option (List Char)) : Bool :=
  let e : Option Int := exponent.map fun ds =>
    let n : Int := baseValue 10 (ds.filter Char.isDigit)
    if ds.head? = some '-' then -n else n
  (Json.numberOf false whole (some places) e).isNone

/-- Whether a word is a float. A float too large for a double is refused, unless it is negative. -/
def isFloat (s : List Char) : Bool :=
  let (negative, rest) := splitSign s
  if rest = "inf".toList ∨ rest = "nan".toList then true
  else
    let mantissa := rest.takeWhile fun c => c ≠ 'e' ∧ c ≠ 'E'
    let exponent := rest.dropWhile fun c => c ≠ 'e' ∧ c ≠ 'E'
    let hasPoint := mantissa.contains '.'
    let parts := pieces '.' mantissa
    let whole := (parts.head?.bind wholeDigits?)
    let places := if hasPoint then (parts[1]?.bind (digits? Char.isDigit)) else some []
    let exponentOk := exponent.isEmpty || (exponentDigits? (exponent.drop 1)).isSome
    match whole, places with
    | some whole, some places =>
      decide (parts.length ≤ 2) && exponentOk && (hasPoint || !exponent.isEmpty) &&
        (negative || !isTooLarge whole places
          (if exponent.isEmpty then none else some (exponent.drop 1)))
    | _, _ => false

/-- A number of exactly `count` digits within bounds. -/
def field? (count low high : Nat) (s : List Char) : Option Nat :=
  if s.length = count ∧ s.all Char.isDigit then
    let n := Json.digitsValue s
    if low ≤ n ∧ n ≤ high then some n else none
  else none

def isLeapYear (year : Nat) : Bool := year % 4 = 0 && (year % 100 != 0 || year % 400 = 0)

def daysIn (year month : Nat) : Nat :=
  if month = 2 then (if isLeapYear year then 29 else 28)
  else if [4, 6, 9, 11].contains month then 30 else 31

def isDate (s : List Char) : Bool :=
  match pieces '-' s with
  | [year, month, day] =>
    match field? 4 0 9999 year, field? 2 1 12 month with
    | some year, some month => (field? 2 1 (daysIn year month) day).isSome
    | _, _ => false
  | _ => false

/-- A fraction of a second: nine digits are kept, but no zeros at the end. -/
def shortFraction (digits : List Char) : List Char :=
  match dropEndWhile (· == '0') (digits.take 9) with
  | [] => []
  | digits => '.' :: digits

/-- Seconds, of which there may be sixty, with a fraction of at least one digit. -/
def seconds? (s : List Char) : Option (List Char) :=
  match pieces '.' s with
  | [whole] => if (field? 2 0 60 whole).isSome then some whole else none
  | [whole, fraction] =>
    if (field? 2 0 60 whole).isSome ∧ fraction ≠ [] ∧ fraction.all Char.isDigit then
      some (whole ++ shortFraction fraction)
    else none
  | _ => none

def time? (s : List Char) : Option (List Char) :=
  match pieces ':' s with
  | [hour, minute, second] =>
    if (field? 2 0 23 hour).isSome ∧ (field? 2 0 59 minute).isSome then
      (seconds? second).map fun second => hour ++ ':' :: minute ++ ':' :: second
    else none
  | _ => none

/-- An offset from universal time, if there is one. An offset of nothing is written with a plus. -/
def offset? (s : List Char) : Option (List Char) :=
  match s with
  | [] => some []
  | ['Z'] | ['z'] => some ['Z']
  | sign :: rest =>
    match pieces ':' rest with
    | [hour, minute] =>
      match field? 2 0 23 hour, field? 2 0 59 minute with
      | some h, some m =>
        if sign ≠ '+' ∧ sign ≠ '-' then none
        else if h = 0 ∧ m = 0 then some ('+' :: rest)
        else some s
      | _, _ => none
    | _ => none

def startsOffset (c : Char) : Bool := c == 'Z' || c == 'z' || c == '+' || c == '-'

def dateTime? (s : List Char) : Option (List Char) :=
  if isDate s then some s
  else match time? s with
    | some time => some time
    | none => do
      let date := s.take 10
      let separator ← s[10]?
      if isDate date ∧ (separator = 'T' ∨ separator = 't' ∨ separator = ' ') then
        let time ← time? ((s.drop 11).takeWhile (!startsOffset ·))
        let offset ← offset? ((s.drop 11).dropWhile (!startsOffset ·))
        pure (date ++ 'T' :: time ++ offset)
      else none

def scalar? (s : List Char) : Option Toml :=
  if s = "true".toList then some (.boolean true)
  else if s = "false".toList then some (.boolean false)
  else match dateTime? s, integer? s with
    | some text, _ => some (.dateTime (String.ofList text))
    | none, some n => some (.integer n)
    | none, none => if isFloat s then some .float else none

end Sitewright.Toml
