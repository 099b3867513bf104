import Sitewright.Json.Basic

/-!
# JSON tokens

The tokens of a JSON text. A string or number that is well formed but stands for nothing readable
(half a surrogate pair, a number too large) is a token without a value.
-/

namespace Sitewright.Json

inductive Token
  | openBrace
  | closeBrace
  | openBracket
  | closeBracket
  | comma
  | colon
  | null
  | bool (b : Bool)
  | number (n : Option Number)
  | string (s : Option String)
  deriving Repr, DecidableEq

def hexValue? (c : Char) : Option Nat :=
  if c.isDigit then some (c.toNat - '0'.toNat)
  else if 'a' ≤ c ∧ c ≤ 'f' then some (c.toNat - 'a'.toNat + 10)
  else if 'A' ≤ c ∧ c ≤ 'F' then some (c.toNat - 'A'.toNat + 10)
  else none

def hexQuad? (a b c d : Char) : Option Nat := do
  let a ← hexValue? a
  let b ← hexValue? b
  let c ← hexValue? c
  let d ← hexValue? d
  pure (((a * 16 + b) * 16 + c) * 16 + d)

def simpleEscape? : Char → Option Char
  | '"' => some '"'
  | '\\' => some '\\'
  | '/' => some '/'
  | 'b' => some '\x08'
  | 'f' => some '\x0c'
  | 'n' => some '\n'
  | 'r' => some '\r'
  | 't' => some '\t'
  | _ => none

def isHighSurrogate (n : Nat) : Bool := 0xD800 ≤ n && n ≤ 0xDBFF

def isLowSurrogate (n : Nat) : Bool := 0xDC00 ≤ n && n ≤ 0xDFFF

def pairedCharacter (high low : Nat) : Char :=
  Char.ofNat (0x10000 + (high - 0xD800) * 0x400 + (low - 0xDC00))

/-- The pieces of a string between its quotes: characters, and code units that were escaped. -/
inductive Piece
  | char (c : Char)
  | unit (n : Nat)
  deriving Repr, DecidableEq

/-- The text of a list of pieces, if its surrogates come in pairs. -/
def textOfPieces : List Piece → Option (List Char)
  | [] => some []
  | .char c :: rest => (textOfPieces rest).map (c :: ·)
  | .unit n :: .unit m :: rest =>
    if isHighSurrogate n then
      if isLowSurrogate m then (textOfPieces rest).map (pairedCharacter n m :: ·) else none
    else if isLowSurrogate n then none
    else (textOfPieces (.unit m :: rest)).map (Char.ofNat n :: ·)
  | .unit n :: rest =>
    if isHighSurrogate n || isLowSurrogate n then none
    else (textOfPieces rest).map (Char.ofNat n :: ·)

/-- The pieces up to the closing quote, and what follows it. Control characters may not stand in a
string. -/
def stringPieces : List Char → Option (List Piece × List Char)
  | [] => none
  | '"' :: rest => some ([], rest)
  | '\\' :: 'u' :: a :: b :: c :: d :: rest => do
    let n ← hexQuad? a b c d
    let (pieces, rest) ← stringPieces rest
    pure (.unit n :: pieces, rest)
  | '\\' :: e :: rest => do
    let c ← simpleEscape? e
    let (pieces, rest) ← stringPieces rest
    pure (.char c :: pieces, rest)
  | c :: rest =>
    if c = '\\' ∨ c.toNat < 0x20 then none
    else do
      let (pieces, rest) ← stringPieces rest
      pure (.char c :: pieces, rest)

def digitsValue (ds : List Char) : Nat := ds.foldl (fun n d => n * 10 + (d.toNat - '0'.toNat)) 0

/-- A number by its sign, whole digits, and, if they were written, places and exponent. It is an
integer if it has neither and fits into 64 bits; minus zero is a double. -/
def numberOf (negative : Bool) (whole : List Char) (places : Option (List Char))
    (exponent : Option Int) : Option Number :=
  let asDouble : Option Number :=
    let digits := digitsValue (whole ++ places.getD [])
    let e : Int := exponent.getD 0 - ((places.getD []).length : Int)
    let count : Int := (whole.length + (places.getD []).length : Nat)
    if digits = 0 ∨ count + e < -400 then some (.double (.zero negative))
    else if 400 < e then none
    else
      let power := Nat.pow 10 e.natAbs
      let (num, den) := if e < 0 then (digits, power) else (digits * power, 1)
      (Double.nearest? negative num den).map .double
  match places, exponent with
  | none, none =>
    let n := digitsValue whole
    if negative then
      if 0 < n ∧ n ≤ Nat.pow 2 63 then some (.integer (-n)) else asDouble
    else if n < Nat.pow 2 64 then some (.integer n) else asDouble
  | _, _ => asDouble

def spanDigits (s : List Char) : List Char × List Char :=
  (s.takeWhile Char.isDigit, s.dropWhile Char.isDigit)

/-- The exponent at the start of a text, if there is one. Nothing if an exponent has no digits. -/
def scanExponent : List Char → Option (Option Int × List Char)
  | c :: rest =>
    if c = 'e' ∨ c = 'E' then
      let (negative, rest) : Bool × List Char := match rest with
        | '-' :: r => (true, r)
        | '+' :: r => (false, r)
        | r => (false, r)
      match spanDigits rest with
      | ([], _) => none
      | (ds, rest) =>
        let n : Int := digitsValue ds
        some (some (if negative then -n else n), rest)
    else some (none, c :: rest)
  | [] => some (none, [])

/-- The digits after a point at the start of a text, if there is one. Nothing if a point has no
digits. -/
def scanPlaces : List Char → Option (Option (List Char) × List Char)
  | '.' :: rest =>
    match spanDigits rest with
    | ([], _) => none
    | (ds, rest) => some (some ds, rest)
  | s => some (none, s)

/-- A number at the start of a text without its sign. A zero is not followed by whole digits. -/
def scanNumber (negative : Bool) (s : List Char) : Option (Token × List Char) := do
  let (whole, rest) ← match s with
    | '0' :: rest => some (['0'], rest)
    | s => match spanDigits s with
      | ([], _) => none
      | found => some found
  let (places, rest) ← scanPlaces rest
  let (exponent, rest) ← scanExponent rest
  pure (.number (numberOf negative whole places exponent), rest)

def scanToken : List Char → Option (Token × List Char)
  | '\x7b' :: rest => some (.openBrace, rest)
  | '\x7d' :: rest => some (.closeBrace, rest)
  | '[' :: rest => some (.openBracket, rest)
  | ']' :: rest => some (.closeBracket, rest)
  | ',' :: rest => some (.comma, rest)
  | ':' :: rest => some (.colon, rest)
  | 'n' :: 'u' :: 'l' :: 'l' :: rest => some (.null, rest)
  | 't' :: 'r' :: 'u' :: 'e' :: rest => some (.bool true, rest)
  | 'f' :: 'a' :: 'l' :: 's' :: 'e' :: rest => some (.bool false, rest)
  | '"' :: rest => do
    let (pieces, rest) ← stringPieces rest
    pure (.string ((textOfPieces pieces).map String.ofList), rest)
  | '-' :: rest => scanNumber true rest
  | s => scanNumber false s

def isSpace (c : Char) : Bool := c == ' ' || c == '\t' || c == '\n' || c == '\r'

def scanTokens : Nat → List Char → Option (List Token)
  | 0, s => if (s.dropWhile isSpace).isEmpty then some [] else none
  | count + 1, s =>
    match s.dropWhile isSpace with
    | [] => some []
    | s => do
      let (token, rest) ← scanToken s
      let tokens ← scanTokens count rest
      pure (token :: tokens)

/-- The tokens of a text. No text has more tokens than characters. -/
def tokensOf (s : List Char) : Option (List Token) := scanTokens s.length s

end Sitewright.Json
