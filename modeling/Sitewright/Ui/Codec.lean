import Sitewright.Ui.Node

/-!
# Component trees as JSON
-/

namespace Sitewright.Ui

open Json

def ReferenceKind.name : ReferenceKind → String
  | .prop => "prop"
  | .state => "state"
  | .attr => "attr"
  | .localName => "local"

def ReferenceKind.ofJson? (form : Form) (j : Json) : Option ReferenceKind := do
  match ← form.word? j with
  | "prop" => pure .prop
  | "state" => pure .state
  | "attr" => pure .attr
  | "local" => pure .localName
  | _ => none

def Reference.toJson (r : Reference) : Json :=
  .object [("referenceType", .string r.kind.name), ("id", .string r.id)]

def Reference.ofJson? (form : Form) (j : Json) : Option Reference := do
  match ← form.record? [["referenceType"], ["id"]] j with
  | [kind, id] =>
    pure { kind := ← required (ReferenceKind.ofJson? form) kind, id := ← required string? id }
  | _ => none

def tagged (name : String) (content : Json) : Json :=
  .object [("type", .string name), ("content", content)]

def Value.toJson : Value → Json
  | .literal s => tagged "static" (.string s)
  | .dynamic r => tagged "dynamic" r.toJson

def Value.ofJson? (form : Form) (j : Json) : Option Value := do
  match ← form.tagged? ["static", "dynamic"] "content" j with
  | ⟨"static", content, _⟩ => (required string? content).map .literal
  | ⟨"dynamic", content, form⟩ => (required (Reference.ofJson? form) content).map .dynamic
  | _ => none

def Element.toJson (e : Element) (children : List Json) : Json :=
  .object ([("elementType", .string e.kind)] ++
    fieldIfSome "semanticType" .string e.semanticKind ++
    fieldIfSome "name" .string e.name ++
    [("attrs", ofTable Value.toJson e.attrs), ("events", ofStringTable e.events),
      ("style", ofStringTable e.style), ("children", .array children)] ++
    fieldIfSome "dependency" Dependency.toJson e.dependency ++
    fieldIfSome "mappedFrom" .string e.mappedFrom)

def elementWith? (node? : Form → Json → Option Node) (form : Form) (j : Json) :
    Option (Element × List Node) := do
  match ← form.record? [["elementType"], ["semanticType"], ["name"], ["attrs"], ["events"],
    ["style"], ["children"], ["dependency"], ["mappedFrom"]] j with
  | [kind, semanticKind, name, attrs, events, style, children, dependency, mappedFrom] =>
    let e : Element :=
      { kind := ← required string? kind
        semanticKind := ← nullable string? semanticKind
        name := ← nullable string? name
        attrs := ← defaulted (table? (Value.ofJson? form)) ∅ attrs
        events := ← defaulted (table? string?) ∅ events
        style := ← defaulted (table? string?) ∅ style
        dependency := ← nullable (Dependency.ofJson? form) dependency
        mappedFrom := ← nullable string? mappedFrom }
    pure (e, ← defaulted (list? (node? form)) [] children)
  | _ => none

mutual
def Node.toJson : Node → Json
  | .element e children => tagged "element" (e.toJson (Node.allToJson children))
  | .text s => tagged "static" (.string s)
  | .dynamic r => tagged "dynamic" r.toJson

def Node.allToJson : List Node → List Json
  | [] => []
  | node :: rest => node.toJson :: Node.allToJson rest
end

def Node.within? : Nat → Form → Json → Option Node
  | 0, _, _ => none
  | depth + 1, form, j => do
    match ← form.tagged? ["element", "static", "dynamic"] "content" j with
    | ⟨"element", content, form⟩ =>
      (required (elementWith? (Node.within? depth) form) content).map fun e => .element e.1 e.2
    | ⟨"static", content, _⟩ => (required string? content).map .text
    | ⟨"dynamic", content, form⟩ => (required (Reference.ofJson? form) content).map .dynamic
    | _ => none

def Node.ofJson? (form : Form) (j : Json) : Option Node := Node.within? j.depth form j

def element? (form : Form) (j : Json) : Option (Element × List Node) :=
  elementWith? (Node.within? j.depth) form j

end Sitewright.Ui
