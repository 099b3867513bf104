import Sitewright.Json.Decode
import Sitewright.Text.Basic

/-!
# File types

The kinds of file that chunks contribute to, and which representations of content each one takes.
-/

namespace Sitewright

inductive FileType
  | css
  | html
  | js
  | json
  | vue
  | ts
  | tsx
  deriving Repr, DecidableEq, Inhabited

inductive Representation
  | text
  | code
  | markup
  deriving Repr, DecidableEq, Inhabited

def Representation.description : Representation → String
  | .text => "plain text"
  | .code => "code tree"
  | .markup => "markup tree"

namespace FileType

def all : List FileType := [.css, .html, .js, .json, .vue, .ts, .tsx]

def extension : FileType → String
  | .css => "css"
  | .html => "html"
  | .js => "js"
  | .json => "json"
  | .vue => "vue"
  | .ts => "ts"
  | .tsx => "tsx"

def otherExtensions : FileType → List String
  | .html => ["htm"]
  | .js => ["jsx", "mjs"]
  | _ => []

def ofExtension? (ext : String) : Option FileType :=
  let ext := String.ofList (ext.toList.flatMap lowered)
  all.find? fun t => t.extension = ext || t.otherExtensions.contains ext

def accepts (t : FileType) : Representation → Bool
  | .text => true
  | .code => [js, ts, tsx, vue].contains t
  | .markup => [html, vue].contains t

def toJson (t : FileType) : Json := .string t.extension

def ofJson? (j : Json) : Option FileType := do
  let name ← j.word?
  all.find? fun t => t.extension = name

end FileType

end Sitewright
