import Sitewright.Ui.Codec

/-!
# Mappings

A mapping replaces the semantic elements of a component tree by the primitives of a target, and
renames events and attributes. An element is decided by its own fields alone, and an element that
has been mapped is left as it is. Two mappings come with the library: for plain HTML and for React.
-/

namespace Sitewright

/-- What replaces the elements of one kind. A dynamic value that refers to an attribute stands for
the value of that attribute of the replaced element. -/
structure ElementMapping where
  kind : String
  dependency : Option Dependency := none
  attrs : Table Ui.Value := ∅
  deriving DecidableEq, Inhabited

structure Mapping where
  elements : Table ElementMapping := ∅
  /-- Attributes of the target by event. -/
  events : Table String := ∅
  /-- Attributes of the target by attribute. -/
  attributes : Table String := ∅
  deriving DecidableEq, Inhabited

def Ui.Value.boundAttr? : Ui.Value → Option String
  | .dynamic ⟨.attr, id⟩ => some id
  | _ => none

namespace Mapping

/-- The value that an entry of a mapping gives to its key, if it is not bound to an attribute that
the element lacks. -/
def mappedValue? (attrs : Table Ui.Value) (value : Ui.Value) : Option Ui.Value :=
  match value.boundAttr? with
  | some id => attrs.get? id
  | none => some value

/-- The attributes of an element that mapped attributes are bound to. -/
def consumed (mapped attrs : Table Ui.Value) : List String :=
  (mapped.values.filterMap Ui.Value.boundAttr?).filter attrs.contains

/-- The attributes of a mapped element: those of the mapping, and over them those of the element
that were not bound. -/
def resolveAttributes (mapped attrs : Table Ui.Value) : Table Ui.Value :=
  let own := attrs.entries.filter fun e => !(consumed mapped attrs).contains e.1
  (Table.ofList (mapped.entries.filterMap fun e =>
    (mappedValue? attrs e.2).map fun value => (e.1, value))).insertAll own

def replaced (m : ElementMapping) (e : Ui.Element) : Ui.Element :=
  { e with
    kind := m.kind
    dependency := m.dependency.or e.dependency
    attrs := if m.attrs.isEmpty then e.attrs else resolveAttributes m.attrs e.attrs
    mappedFrom := some e.kind }

/-- An element after the mapping: replaced if its kind is mapped, else of its semantic kind if it
has one. -/
def resolveElement (m : Mapping) (e : Ui.Element) : Ui.Element :=
  if e.mappedFrom.isSome then e
  else match m.elements.get? e.kind with
    | some mapped => replaced mapped e
    | none =>
      match e.semanticKind with
      | some kind => { e with kind, semanticKind := none, mappedFrom := some e.kind }
      | none => e

def resolveTree (m : Mapping) (node : Ui.Node) : Ui.Node := node.mapElements m.resolveElement

def overlay (m other : Mapping) : Mapping :=
  { elements := m.elements.overlay other.elements
    events := m.events.overlay other.events
    attributes := m.attributes.overlay other.attributes }

def isEmpty (m : Mapping) : Bool :=
  m.elements.isEmpty && m.events.isEmpty && m.attributes.isEmpty

def eventName? (m : Mapping) (event : String) : Option String := m.events.get? event

/-- The attribute of the target for an event; the event itself if there is none. -/
def eventName (m : Mapping) (event : String) : String := (m.eventName? event).getD event

def attributeName (m : Mapping) (key : String) : String := (m.attributes.get? key).getD key

end Mapping

open Json

def ElementMapping.toJson (m : ElementMapping) : Json :=
  .object ([("elementType", .string m.kind)] ++
    fieldIfSome "dependency" Dependency.toJson m.dependency ++
    [("attrs", ofTable Ui.Value.toJson m.attrs)])

def ElementMapping.ofJson? (form : Form) (j : Json) : Option ElementMapping := do
  match ← form.record? [["elementType"], ["dependency"], ["attrs"]] j with
  | [kind, dependency, attrs] =>
    pure { kind := ← required string? kind
           dependency := ← nullable (Dependency.ofJson? form) dependency
           attrs := ← defaulted (table? (Ui.Value.ofJson? form)) ∅ attrs }
  | _ => none

def Mapping.toJson (m : Mapping) : Json :=
  .object [("elements", ofTable ElementMapping.toJson m.elements),
    ("events", ofStringTable m.events), ("attributes", ofStringTable m.attributes)]

def Mapping.ofJson? (form : Form) (j : Json) : Option Mapping := do
  match ← form.record? [["elements"], ["events"], ["attributes"]] j with
  | [elements, events, attributes] =>
    pure { elements := ← defaulted (table? (ElementMapping.ofJson? form)) ∅ elements
           events := ← defaulted (table? string?) ∅ events
           attributes := ← defaulted (table? string?) ∅ attributes }
  | _ => none

end Sitewright

namespace Sitewright.Mapping

def webElements : List (String × ElementMapping) :=
  [("container", { kind := "div" }), ("text", { kind := "span" }), ("image", { kind := "img" }),
    ("link", { kind := "a" }), ("list", { kind := "ul" }), ("list-item", { kind := "li" }),
    ("button", { kind := "button" }), ("textinput", { kind := "input" })]

def bound (id : String) : Ui.Value := .dynamic ⟨.attr, id⟩

def html : Mapping where
  elements := Table.ofList (webElements ++
    [("navlink", { kind := "a", attrs := Table.ofList [("href", bound "transitionTo")] })])
  events := Table.ofList [("click", "onclick"), ("change", "onchange"), ("submit", "onsubmit")]

def routerVersion : String := "4.3.1"

def react : Mapping where
  elements := Table.ofList (webElements ++
    [("navlink",
      { kind := "Link"
        dependency := some (Dependency.library "react-router-dom" routerVersion).named
        attrs := Table.ofList [("to", bound "transitionTo")] })])
  events := Table.ofList [("click", "onClick"), ("change", "onChange"), ("submit", "onSubmit")]
  attributes := Table.ofList [("class", "className"), ("for", "htmlFor")]

end Sitewright.Mapping
