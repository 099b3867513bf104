import Sitewright.Markup.Basic
import Sitewright.Json.Decode

/-!
# Markup trees as JSON
-/

namespace Sitewright.Markup

open Json

def Attr.toJson : Attr → Json
  | .literal value => .object [("type", .string "static"), ("value", .string value)]
  | .dynamic value => .object [("type", .string "dynamic"), ("value", .string value)]
  | .flag => .object [("type", .string "boolean")]

def Attr.ofJson? (form : Form) (j : Json) : Option Attr := do
  match ← form.tagged? ["static", "dynamic", "boolean"] "value" j with
  | ⟨"static", value, _⟩ => (required string? value).map .literal
  | ⟨"dynamic", value, _⟩ => (required string? value).map .dynamic
  | ⟨"boolean", value, _⟩ => (noContent value).map fun _ => .flag
  | _ => none

def attrsToJson (attrs : List (String × Attr)) : Json :=
  ofItems (fun a => .array [.string a.1, a.2.toJson]) attrs

def attrs? (form : Form) : Json → Option (List (String × Attr)) :=
  list? (pair? string? (Attr.ofJson? form))

mutual
def Child.toJson : Child → Json
  | .element tag attrs children => .object [("type", .string "element"), ("value",
      .object [("tag", .string tag), ("attrs", attrsToJson attrs),
        ("children", .array (childrenToJson children))])]
  | .text s => .object [("type", .string "text"), ("value", .string s)]
  | .raw s => .object [("type", .string "raw"), ("value", .string s)]
  | .expression s => .object [("type", .string "expression"), ("value", .string s)]

def childrenToJson : List Child → List Json
  | [] => []
  | c :: rest => c.toJson :: childrenToJson rest
end

def Element.toJson (e : Element) : Json :=
  .object [("tag", .string e.tag), ("attrs", attrsToJson e.attrs),
    ("children", .array (childrenToJson e.children))]

def elementWith? (child? : Form → Json → Option Child) (form : Form) (j : Json) :
    Option Element := do
  match ← form.record? [["tag"], ["attrs"], ["children"]] j with
  | [tag, attrs, children] =>
    pure { tag := ← required string? tag
           attrs := ← defaulted (attrs? form) [] attrs
           children := ← defaulted (list? (child? form)) [] children }
  | _ => none

def childWithin? : Nat → Form → Json → Option Child
  | 0, _, _ => none
  | depth + 1, form, j => do
    match ← form.tagged? ["element", "text", "raw", "expression"] "value" j with
    | ⟨"element", value, form⟩ =>
      (required (elementWith? (childWithin? depth) form) value).map (·.toChild)
    | ⟨"text", value, _⟩ => (required string? value).map .text
    | ⟨"raw", value, _⟩ => (required string? value).map .raw
    | ⟨"expression", value, _⟩ => (required string? value).map .expression
    | _ => none

def Element.ofJson? (j : Json) : Option Element := elementWith? (childWithin? j.depth) .plain j

end Sitewright.Markup
