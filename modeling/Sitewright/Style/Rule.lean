import Sitewright.Table
import Sitewright.Text.Basic

/-!
# Style rules

A rule has a selector and declarations. The style values of components become declarations by
giving properties their CSS names and turning references to design tokens into custom properties.
-/

namespace Sitewright.Style

def isTokenChar (c : Char) : Bool := c.isAlphanum || c == '_' || c == '-'

/-- Resolve the token references of a value. `inToken` says that the characters so far end within
the name of a token. -/
def resolveTokenChars (inToken : Bool) : List Char → List Char
  | [] => if inToken then [')'] else []
  | c :: rest =>
    if inToken && isTokenChar c then c :: resolveTokenChars true rest
    else
      (if inToken then [')'] else []) ++
        (if c = '$' && (rest.head?.map Char.isAlpha).getD false then
          "var(--".toList ++ resolveTokenChars true rest
        else c :: resolveTokenChars false rest)

/-- A style value in CSS: `$name` refers to the design token of that name. -/
def resolveTokens (value : String) : String := String.ofList (resolveTokenChars false value.toList)

structure Rule where
  selector : String
  declarations : List (String × String)
  deriving Repr, DecidableEq, Inhabited

def declarationLines (declarations : List (String × String)) : String :=
  String.join (declarations.map fun d => "  " ++ d.1 ++ ": " ++ d.2 ++ ";\n")

def Rule.text (r : Rule) : String :=
  r.selector ++ " \x7b\n" ++ declarationLines r.declarations ++ "\x7d"

def sheetText (rules : List Rule) : String := "\n\n".intercalate (rules.map Rule.text)

def ruleOf (selector : String) (style : Table String) : Rule :=
  ⟨selector, style.entries.map fun e => (dashCase e.1, resolveTokens e.2)⟩

def tokensRule (tokens : Table String) : Rule :=
  ⟨":root", tokens.entries.map fun e => ("--" ++ dashCase e.1, resolveTokens e.2)⟩

def setRules (sets : Table (Table String)) : List Rule :=
  sets.entries.map fun e => ruleOf ("." ++ dashCase e.1) e.2

end Sitewright.Style
