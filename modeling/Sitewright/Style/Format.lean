import Sitewright.Style.Rule
import Sitewright.Text.Basic

/-!
# Formatting style sheets

A formatter for a fragment of CSS, which stands in for one of the whole language. It reads style
rules that are neither nested nor under an `@`-rule, and writes them with one declaration a line and
without comments. Of values it changes only white space and colours: a colour of three or six
hexadecimal digits, or with one of the names below, gets its shortest form. That is its name or its
digits, of which three are enough if the six come in pairs. Other colours and other values stay as
they are. The results on style sheets are stated for any post-processor in its place.
-/

namespace Sitewright.Style

/-- The colours with names of at most six letters. The first name of a colour is the one to
write. -/
def colourNames : List (String × String) :=
  [("aqua", "00ffff"), ("azure", "f0ffff"), ("beige", "f5f5dc"), ("bisque", "ffe4c4"),
    ("black", "000000"), ("blue", "0000ff"), ("brown", "a52a2a"), ("coral", "ff7f50"),
    ("cyan", "00ffff"), ("gold", "ffd700"), ("gray", "808080"), ("green", "008000"),
    ("grey", "808080"), ("indigo", "4b0082"), ("ivory", "fffff0"), ("khaki", "f0e68c"),
    ("lime", "00ff00"), ("linen", "faf0e6"), ("maroon", "800000"), ("navy", "000080"),
    ("olive", "808000"), ("orange", "ffa500"), ("orchid", "da70d6"), ("peru", "cd853f"),
    ("pink", "ffc0cb"), ("plum", "dda0dd"), ("purple", "800080"), ("red", "ff0000"),
    ("salmon", "fa8072"), ("sienna", "a0522d"), ("silver", "c0c0c0"), ("snow", "fffafa"),
    ("tan", "d2b48c"), ("teal", "008080"), ("tomato", "ff6347"), ("violet", "ee82ee"),
    ("wheat", "f5deb3"), ("white", "ffffff"), ("yellow", "ffff00")]

def shortDigits : List Char → List Char
  | [a, b, c, d, e, f] => if a = b ∧ c = d ∧ e = f then [a, c, e] else [a, b, c, d, e, f]
  | digits => digits

def sixDigits : List Char → List Char
  | [a, b, c] => [a, a, b, b, c, c]
  | digits => digits

def shortColour (digits : List Char) : List Char :=
  let short := '#' :: shortDigits (sixDigits digits)
  match colourNames.find? (·.2 = String.ofList (sixDigits digits)) with
  | some (name, _) => if name.length < short.length then name.toList else short
  | none => short

def isHexDigit (c : Char) : Bool := c.isDigit || ('a' ≤ c && c ≤ 'f') || ('A' ≤ c && c ≤ 'F')

/-- A word of a value: hexadecimal digits after a `#` are a colour. -/
def shortWord : List Char → List Char
  | '#' :: digits =>
    if digits.all isHexDigit then shortColour (digits.map Char.toLower) else '#' :: digits
  | word => word

/-- A word where only a colour can stand, so that it may be the name of one. -/
def shortColourWord (word : List Char) : List Char :=
  match colourNames.lookup (String.ofList (word.map Char.toLower)) with
  | some digits => shortColour digits.toList
  | none => shortWord word

example : shortColour "ffffff".toList = "#fff".toList ∧ shortColour "f00".toList = "red".toList ∧
    shortColour "822cec".toList = "#822cec".toList := by decide

/-- A text without comments. `inComment` says that it starts within one. -/
def withoutComments (inComment : Bool) : List Char → List Char
  | [] => []
  | '/' :: '*' :: rest =>
    if inComment then withoutComments true ('*' :: rest) else withoutComments true rest
  | '*' :: '/' :: rest =>
    if inComment then withoutComments false rest else '*' :: withoutComments false ('/' :: rest)
  | c :: rest => if inComment then withoutComments true rest else c :: withoutComments false rest

def isNameStart (c : Char) : Bool := c.isAlpha || c == '_' || c == '\\' || 127 < c.toNat

def startsName : List Char → Bool
  | '-' :: '-' :: _ => true
  | '-' :: c :: _ => isNameStart c
  | c :: _ => isNameStart c
  | [] => false

def classesNamed : List Char → Bool
  | [] => true
  | c :: rest => (c != '.' || startsName rest) && classesNamed rest

def isSpace (c : Char) : Bool := c == ' ' || c == '\t' || c == '\n' || c == '\r' || c == '\x0c'

def trimmed (s : List Char) : List Char := dropEndWhile isSpace (s.dropWhile isSpace)

def spaced (s : List Char) : List Char :=
  [' '].intercalate ((pieces ' ' (s.map fun c => if isSpace c then ' ' else c)).filter (· ≠ []))

def mapWords (write : List Char → List Char) (s : List Char) : List Char :=
  (s.splitBy fun a b => isSpace a = isSpace b).flatMap fun run =>
    if run.any isSpace then run else write run

def refersToCustom (value : List Char) : Bool := (pieces '(' value).dropLast.any fun before =>
  "var".toList.isSuffixOf before

/-- The value of a declaration. What it means is not known of a custom property and where it refers
to one; then its white space is left as it is, and a value of nothing else is left whole. -/
def shortValue (property : List Char) (value : List Char) : List Char :=
  if value.all isSpace then value
  else if "--".toList.isPrefixOf property || refersToCustom value then
    mapWords shortWord (trimmed value)
  else mapWords (if property = "color".toList then shortColourWord else shortWord) (spaced value)

/-- A declaration. Its property has a name. -/
def declaration? (s : List Char) : Option (String × String) :=
  match pieces ':' s with
  | property :: value :: more =>
    let property := trimmed property
    if startsName property then
      some (String.ofList property,
        String.ofList (shortValue property ([':'].intercalate (value :: more))))
    else none
  | _ => none

def rule? (selector body : List Char) : Option Rule := do
  let selector := spaced selector
  if selector = [] ∨ !classesNamed selector then none
  else
    let parts := (pieces ';' body).filter fun part => !part.all isSpace
    pure ⟨String.ofList selector, ← parts.mapM declaration?⟩

def segment? (s : List Char) : Option Rule :=
  match pieces '\x7b' s with
  | [selector, body] => rule? selector body
  | _ => none

/-- The rules of a style sheet. The last one may lack its closing brace. -/
def parseSheet? (text : String) : Option (List Rule) :=
  let segments := pieces '\x7d' (withoutComments false text.toList)
  let closed := segments.dropLast
  let last := (segments.getLast?.getD []).dropWhile isSpace
  (if last.isEmpty then closed else closed ++ [last]).mapM segment?

def format? (text : String) : Option String :=
  (parseSheet? text).map fun rules => sheetText rules ++ "\n"

end Sitewright.Style
