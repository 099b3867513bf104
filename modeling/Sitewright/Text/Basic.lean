/-!
# Texts and the words of names

White space is what has the Unicode property White_Space; the zero-width space, the byte order mark
and the information separators U+001C to U+001F are not among it. Texts are cut at separators. Line
feeds end lines, a carriage return directly before one belongs to the line end, and a carriage
return elsewhere is an ordinary character.

File names, class names, CSS names and package names are all made from the words of a name: its runs
of ASCII letters and digits, a run being cut once more before an upper-case letter that follows a
lower-case letter or a digit.
-/

namespace Sitewright

def isBlank (c : Char) : Bool :=
  let n := c.toNat
  (9 ≤ n && n ≤ 13) || n == 0x20 || n == 0x85 || n == 0xA0 || n == 0x1680 ||
    (0x2000 ≤ n && n ≤ 0x200A) || n == 0x2028 || n == 0x2029 || n == 0x202F ||
    n == 0x205F || n == 0x3000

def dropEndWhile {α : Type} (p : α → Bool) (l : List α) : List α :=
  (l.reverse.dropWhile p).reverse

def trimEnd (s : String) : String := String.ofList (dropEndWhile isBlank s.toList)

def trimBoth (s : String) : String :=
  String.ofList (dropEndWhile isBlank (s.toList.dropWhile isBlank))

def isBlankText (s : String) : Bool := s.toList.all isBlank

example : isBlank '\u200b' = false ∧ isBlank '\ufeff' = false ∧ isBlank '\x1c' = false := by decide

/-- Cut a list at every member equal to `sep`: one more piece than there are separators. -/
def pieces {α : Type} [DecidableEq α] (sep : α) (l : List α) : List (List α) :=
  l.foldr (fun c acc =>
    if c = sep then [] :: acc
    else match acc with
      | [] => [[c]]
      | piece :: rest => (c :: piece) :: rest) [[]]

def splitText (sep : Char) (s : String) : List String :=
  (pieces sep s.toList).map String.ofList

def beginsWith (start s : String) : Bool := start.toList.isPrefixOf s.toList

def endsWithText (ending s : String) : Bool := ending.toList.isSuffixOf s.toList

def replaceChar (old : Char) (new : String) (s : String) : String :=
  String.ofList (s.toList.flatMap fun c => if c = old then new.toList else [c])

theorem pieces_ne_nil {α : Type} [DecidableEq α] (sep : α) (l : List α) : pieces sep l ≠ [] := by
  cases l with
  | nil => simp [pieces]
  | cons c rest =>
    simp only [pieces, List.foldr_cons]
    split
    · simp
    · split <;> simp

/-- A line without the carriage return that ended it. -/
def withoutReturn (line : List Char) : List Char :=
  match line.getLast? with
  | some '\r' => line.dropLast
  | _ => line

/-- The lines of a text. What follows the last line feed is a line only if it is not empty, and
keeps its carriage returns. -/
def linesOf (text : List Char) : List (List Char) :=
  let parts := pieces '\n' text
  let ended := parts.dropLast.map withoutReturn
  match parts.getLast? with
  | none | some [] => ended
  | some last => ended ++ [last]

/-- Lines without white space at their ends, no blank lines at the end, and one line feed after the
last. -/
def normalizeLines (text : List Char) : List Char :=
  dropEndWhile isBlank (['\n'].intercalate ((linesOf text).map (dropEndWhile isBlank))) ++ ['\n']

def normalizeText (text : String) : String := String.ofList (normalizeLines text.toList)

/-! ## Words of a name -/

def inOneWord (a b : Char) : Bool :=
  a.isAlphanum && b.isAlphanum && !((a.isLower || a.isDigit) && b.isUpper)

def nameWords (name : List Char) : List (List Char) :=
  ((name.splitBy inOneWord).filter (·.all Char.isAlphanum)).map (·.map Char.toLower)

def hyphenated (words : List (List Char)) : List Char := ['-'].intercalate words

/-- The lower-case words of a name joined by hyphens: `PrimaryButton` and `primary button` give
`primary-button`. -/
def dashCase (name : String) : String := String.ofList (hyphenated (nameWords name.toList))

def capitalized : List Char → List Char
  | [] => []
  | c :: rest => c.toUpper :: rest

/-- The words of a name, each with a capital, written together: `primary button` gives
`PrimaryButton`. -/
def upperCamelCase (name : String) : String :=
  String.ofList ((nameWords name.toList).flatMap capitalized)

/-- The lower-case form of a character, as far as it holds ASCII letters or digits. Outside ASCII
only the dotted capital I and the Kelvin sign have such a form; all other characters stand for
themselves. -/
def lowered (c : Char) : List Char :=
  if c = '\u0130' then ['i', '\u0307']
  else if c = '\u212a' then ['k']
  else [c.toLower]

/-- A name for a package manifest: its runs of letters and digits, in lower case and joined by
hyphens. Capitals do not cut a run. -/
def slug (name : String) : String :=
  String.ofList <| hyphenated <|
    (((name.toList.flatMap lowered).splitBy fun a b => a.isAlphanum && b.isAlphanum).filter
      (·.all Char.isAlphanum))

end Sitewright
