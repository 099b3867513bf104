import Sitewright.Toml.Scalar

/-!
# Reading TOML

A document is read line by line. Strings, keys and values are read from the start of what is left of
the text. Containers may be nested less than 80 deep.
-/

namespace Sitewright.Toml

def isSpace (c : Char) : Bool := c == ' ' || c == '\t'

def skipSpaces (s : List Char) : List Char := s.dropWhile isSpace

/-- Whether a character may stand in a string or comment: no control character but the tab. -/
def isPrintable (c : Char) : Bool := c == '\t' || (0x20 ≤ c.toNat && c.toNat != 0x7F)

def scalarOf? (n : Nat) : Option Char := if n.isValidChar then some (Char.ofNat n) else none

def simpleEscape? : Char → Option Char
  | 'b' => some '\x08'
  | 't' => some '\t'
  | 'n' => some '\n'
  | 'f' => some '\x0c'
  | 'r' => some '\r'
  | '"' => some '"'
  | '\\' => some '\\'
  | _ => none

def hexEight? (digits : List Char) : Option Nat :=
  (digits.mapM Json.hexValue?).map fun ds => ds.foldl (fun n d => n * 16 + d) 0

def basicTail : List Char → Option (List Char × List Char)
  | [] => none
  | '"' :: rest => some ([], rest)
  | '\\' :: 'u' :: a :: b :: c :: d :: rest => do
    let char ← scalarOf? (← Json.hexQuad? a b c d)
    let (tail, rest) ← basicTail rest
    pure (char :: tail, rest)
  | '\\' :: 'U' :: a :: b :: c :: d :: e :: f :: g :: h :: rest => do
    let char ← scalarOf? (← hexEight? [a, b, c, d, e, f, g, h])
    let (tail, rest) ← basicTail rest
    pure (char :: tail, rest)
  | '\\' :: e :: rest => do
    let char ← simpleEscape? e
    let (tail, rest) ← basicTail rest
    pure (char :: tail, rest)
  | c :: rest =>
    if c = '\\' ∨ !isPrintable c then none
    else do
      let (tail, rest) ← basicTail rest
      pure (c :: tail, rest)

def literalTail : List Char → Option (List Char × List Char)
  | [] => none
  | '\'' :: rest => some ([], rest)
  | c :: rest =>
    if isPrintable c then do
      let (tail, rest) ← literalTail rest
      pure (c :: tail, rest)
    else none

def endsLine (s : List Char) : Bool :=
  match skipSpaces s with
  | '\n' :: _ | '\r' :: '\n' :: _ => true
  | _ => false

/-- What follows the opening quotes of a basic string of several lines. A backslash at the end of a
line hides the white space up to the next visible character; `skipping` says that it is being
hidden. Up to two quotes may stand before the closing ones. -/
def longBasicTail (skipping : Bool) : List Char → Option (List Char × List Char)
  | [] => none
  | '"' :: '"' :: '"' :: '"' :: '"' :: rest => some (['"', '"'], rest)
  | '"' :: '"' :: '"' :: '"' :: rest => some (['"'], rest)
  | '"' :: '"' :: '"' :: rest => some ([], rest)
  | '\\' :: 'u' :: a :: b :: c :: d :: rest => do
    let char ← scalarOf? (← Json.hexQuad? a b c d)
    let (tail, rest) ← longBasicTail false rest
    pure (char :: tail, rest)
  | '\\' :: 'U' :: a :: b :: c :: d :: e :: f :: g :: h :: rest => do
    let char ← scalarOf? (← hexEight? [a, b, c, d, e, f, g, h])
    let (tail, rest) ← longBasicTail false rest
    pure (char :: tail, rest)
  | '\\' :: e :: rest =>
    if endsLine (e :: rest) then longBasicTail true (e :: rest)
    else do
      let char ← simpleEscape? e
      let (tail, rest) ← longBasicTail false rest
      pure (char :: tail, rest)
  | '\r' :: '\n' :: rest =>
    if skipping then longBasicTail true rest
    else do
      let (tail, rest) ← longBasicTail false rest
      pure ('\n' :: tail, rest)
  | c :: rest =>
    if skipping && (c == '\n' || isSpace c) then longBasicTail true rest
    else if c = '\\' ∨ (c ≠ '\n' ∧ !isPrintable c) then none
    else do
      let (tail, rest) ← longBasicTail false rest
      pure (c :: tail, rest)

def longLiteralTail : List Char → Option (List Char × List Char)
  | [] => none
  | '\'' :: '\'' :: '\'' :: '\'' :: '\'' :: rest => some (['\'', '\''], rest)
  | '\'' :: '\'' :: '\'' :: '\'' :: rest => some (['\''], rest)
  | '\'' :: '\'' :: '\'' :: rest => some ([], rest)
  | '\r' :: '\n' :: rest => do
    let (tail, rest) ← longLiteralTail rest
    pure ('\n' :: tail, rest)
  | c :: rest =>
    if c = '\n' ∨ isPrintable c then do
      let (tail, rest) ← longLiteralTail rest
      pure (c :: tail, rest)
    else none

def dropNewline : List Char → List Char
  | '\n' :: rest | '\r' :: '\n' :: rest => rest
  | s => s

def string? : List Char → Option (String × List Char)
  | '"' :: '"' :: '"' :: rest => (longBasicTail false (dropNewline rest)).map finish
  | '\'' :: '\'' :: '\'' :: rest => (longLiteralTail (dropNewline rest)).map finish
  | '"' :: rest => (basicTail rest).map finish
  | '\'' :: rest => (literalTail rest).map finish
  | _ => none
where
  finish (found : List Char × List Char) : String × List Char := (String.ofList found.1, found.2)

def isBareKeyChar (c : Char) : Bool := c.isAlphanum || c == '_' || c == '-'

def keyPart? : List Char → Option (String × List Char)
  | '"' :: rest => (basicTail rest).map fun e => (String.ofList e.1, e.2)
  | '\'' :: rest => (literalTail rest).map fun e => (String.ofList e.1, e.2)
  | s =>
    let word := s.takeWhile isBareKeyChar
    if word.isEmpty then none else some (String.ofList word, s.dropWhile isBareKeyChar)

def key? : Nat → List Char → Option (List String × List Char)
  | 0, _ => none
  | count + 1, s => do
    let (part, rest) ← keyPart? s
    match skipSpaces rest with
    | '.' :: rest => do
      let (parts, rest) ← key? count (skipSpaces rest)
      pure (part :: parts, rest)
    | rest => pure ([part], rest)

/-- A limit on nesting that no container and no key reaches. -/
def nestingLimit : Nat := 80

def dropComment (s : List Char) : List Char := s.dropWhile fun c => c != '\n' && isPrintable c

def skipBlanks : Nat → List Char → List Char
  | 0, s => s
  | count + 1, s =>
    match skipSpaces s with
    | '\n' :: rest | '\r' :: '\n' :: rest => skipBlanks count rest
    | '#' :: rest =>
      match dropComment rest with
      | '\n' :: rest | '\r' :: '\n' :: rest => skipBlanks count rest
      | rest => rest
    | rest => rest

def isWordChar (c : Char) : Bool :=
  c.isAlphanum || c == '_' || c == '+' || c == '-' || c == '.' || c == ':'

/-- The word at the start of a text. A space between a date and a time belongs to the word. -/
def spanWord (s : List Char) : List Char × List Char :=
  let word := s.takeWhile isWordChar
  let rest := s.dropWhile isWordChar
  match rest with
  | ' ' :: c :: more =>
    if isDate word && c.isDigit then
      let time := (c :: more).takeWhile isWordChar
      (word ++ ' ' :: time, (c :: more).dropWhile isWordChar)
    else (word, rest)
  | _ => (word, rest)

mutual
/-- A value at the start of a text, within `depth` containers. The first argument bounds the
steps. -/
def value? : Nat → Nat → List Char → Option (Toml × List Char)
  | 0, _, _ => none
  | steps + 1, depth, s =>
    match s with
    | '"' :: _ | '\'' :: _ => (string? s).map fun e => (.string e.1, e.2)
    | '[' :: rest =>
      if depth + 1 < nestingLimit then do
        let (items, rest) ← items? steps (depth + 1) rest
        pure (.array items, rest)
      else none
    | '\x7b' :: rest =>
      if depth + 1 < nestingLimit then do
        let entries ← match skipSpaces rest with
          | '\x7d' :: rest => some ([], rest)
          | rest => pairs? steps (depth + 1) [] rest
        pure (.table .inline entries.1, entries.2)
      else none
    | s => do
      let (word, rest) := spanWord s
      pure (← scalar? word, rest)

def items? : Nat → Nat → List Char → Option (List Toml × List Char)
  | 0, _, _ => none
  | steps + 1, depth, s =>
    match skipBlanks s.length s with
    | ']' :: rest => some ([], rest)
    | s => do
      let (item, rest) ← value? steps depth s
      match skipBlanks rest.length rest with
      | ',' :: rest => do
        let (items, rest) ← items? steps depth rest
        pure (item :: items, rest)
      | ']' :: rest => pure ([item], rest)
      | _ => none

def pairs? : Nat → Nat → List (String × Toml) → List Char →
    Option (List (String × Toml) × List Char)
  | 0, _, _, _ => none
  | steps + 1, depth, before, s => do
    let (key, rest) ← key? (nestingLimit - 1) (skipSpaces s)
    match rest with
    | '=' :: rest => do
      let (value, rest) ← value? steps depth (skipSpaces rest)
      let last ← key.getLast?
      let entries ← addDotted key.dropLast last value before
      match skipSpaces rest with
      | ',' :: rest => pairs? steps depth entries rest
      | '\x7d' :: rest => pure (entries, rest)
      | _ => none
    | _ => none
end

/-- A document so far: its entries, and the path of the table that keys go to. -/
structure Progress where
  entries : List (String × Toml) := []
  path : List String := []

def Progress.assign (p : Progress) (key : List String) (value : Toml) : Option Progress := do
  let last ← key.getLast?
  let entries ← changeAt .header (addDotted key.dropLast last value) p.path p.entries
  pure { p with entries }

/-- Go on with the table of a header. -/
def Progress.enter (p : Progress) (path : List String)
    (enter : String → List (String × Toml) → Option (List (String × Toml))) : Option Progress := do
  let last ← path.getLast?
  let entries ← changeAt .implied (enter last) path.dropLast p.entries
  pure { entries, path }

def endLine? (s : List Char) : Option (List Char) :=
  let rest := match skipSpaces s with
    | '#' :: rest => dropComment rest
    | rest => rest
  match rest with
  | [] => some []
  | '\n' :: rest | '\r' :: '\n' :: rest => some rest
  | _ => none

def expression? (p : Progress) (s : List Char) : Option (Progress × List Char) :=
  match s with
  | '[' :: '[' :: rest => do
    match ← key? (nestingLimit - 1) (skipSpaces rest) with
    | (path, ']' :: ']' :: rest) => pure (← p.enter path openElement, rest)
    | _ => none
  | '[' :: rest => do
    match ← key? (nestingLimit - 1) (skipSpaces rest) with
    | (path, ']' :: rest) => pure (← p.enter path openTable, rest)
    | _ => none
  | s => do
    match ← key? (nestingLimit - 1) s with
    | (key, '=' :: rest) => do
      let rest := skipSpaces rest
      let (value, rest) ← value? (2 * rest.length + 2) 0 rest
      pure (← p.assign key value, rest)
    | _ => none

def lines? : Nat → Progress → List Char → Option Progress
  | 0, p, s => if s.isEmpty then some p else none
  | count + 1, p, s =>
    match skipSpaces s with
    | [] => some p
    | c :: rest =>
      if c = '\n' ∨ c = '\r' ∨ c = '#' then do
        lines? count p (← endLine? (c :: rest))
      else do
        let (p, rest) ← expression? p (c :: rest)
        lines? count p (← endLine? rest)

def dropMark : List Char → List Char
  | '\ufeff' :: rest => rest
  | s => s

def read? (text : String) : Option Toml :=
  let s := dropMark text.toList
  (lines? (s.length + 1) {} s).map fun p => .table .header p.entries

end Sitewright.Toml
