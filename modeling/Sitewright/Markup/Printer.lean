import Sitewright.Markup.Basic
import Sitewright.Text.Basic

/-!
# Writing markup

One writer for the dialects of markup: an element whose children hold no element is written on one
line, any other one with a line for each child, two spaces deeper than the element. A dialect says
how attributes, texts and expressions are written and which elements have no content.
-/

namespace Sitewright.Markup

structure Dialect where
  /-- An attribute with the space before it. -/
  attrText : String → Attr → String
  /-- The end of the tag of an element written without content, if the element with this tag and
  these children is one. -/
  ending : String → List Child → Option String
  /-- Text inside an element with this tag. -/
  textIn : String → String → String
  expressionText : String → String

def escapedInText (c : Char) : List Char :=
  if c = '&' then "&amp;".toList
  else if c = '<' then "&lt;".toList
  else if c = '>' then "&gt;".toList
  else [c]

def escapeText (s : String) : String := String.ofList (s.toList.flatMap escapedInText)

def escapedInAttribute (c : Char) : List Char :=
  if c = '&' then "&amp;".toList
  else if c = '"' then "&quot;".toList
  else [c]

def escapeAttribute (s : String) : String := String.ofList (s.toList.flatMap escapedInAttribute)

def indentation (depth : Nat) : String := String.ofList (List.replicate (2 * depth) ' ')

def Dialect.inlineChild (d : Dialect) (tag : String) : Child → String
  | .element _ _ _ => ""
  | .text s => d.textIn tag s
  | .raw markup => markup
  | .expression s => d.expressionText s

def Dialect.attributes (d : Dialect) (attrs : List (String × Attr)) : String :=
  String.join (attrs.map fun a => d.attrText a.1 a.2)

mutual
def Dialect.write (d : Dialect) (depth : Nat) (parent : String) : Child → String
  | .element tag attrs children =>
    let start := indentation depth ++ "<" ++ tag ++ d.attributes attrs
    match d.ending tag children with
    | some ending => start ++ ending ++ "\n"
    | none =>
      let content :=
        if children.any Child.isElement then
          "\n" ++ d.writeAll (depth + 1) tag children ++ indentation depth
        else String.join (children.map (d.inlineChild tag))
      start ++ ">" ++ content ++ "</" ++ tag ++ ">\n"
  | other => indentation depth ++ d.inlineChild parent other ++ "\n"

def Dialect.writeAll (d : Dialect) (depth : Nat) (parent : String) : List Child → String
  | [] => ""
  | child :: rest => d.write depth parent child ++ d.writeAll depth parent rest
end

def voidTags : List String :=
  ["area", "base", "br", "col", "embed", "hr", "img", "input", "link", "meta", "source", "track",
    "wbr"]

def rawTextTags : List String := ["script", "style"]

/-- HTML. Dynamic attributes are written like literal ones, expressions between double braces. -/
def html : Dialect where
  attrText key
    | .literal value | .dynamic value => " " ++ key ++ "=\"" ++ escapeAttribute value ++ "\""
    | .flag => " " ++ key
  ending tag _ := if voidTags.contains tag then some ">" else none
  textIn tag s := if rawTextTags.contains tag then s else escapeText s
  expressionText s := "\x7b\x7b " ++ s ++ " \x7d\x7d"

def Element.toHtml (e : Element) : String := trimEnd (html.write 0 "" e.toChild)

end Sitewright.Markup
