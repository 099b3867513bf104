import Sitewright.Dependency.Basic

/-!
# Component trees

The framework-independent tree of a component: elements with their own fields and children, texts,
and references to values that are only known to the component.
-/

namespace Sitewright.Ui

inductive ReferenceKind
  | prop
  | state
  | attr
  | localName
  deriving Repr, DecidableEq, Inhabited

structure Reference where
  kind : ReferenceKind
  id : String
  deriving Repr, DecidableEq, Inhabited

inductive Value
  | literal (s : String)
  | dynamic (r : Reference)
  deriving Repr, DecidableEq, Inhabited

structure Element where
  kind : String
  /-- The kind to take when no mapping applies. -/
  semanticKind : Option String := none
  /-- A name for people, from which class names are made. -/
  name : Option String := none
  attrs : Table Value := ∅
  /-- Handlers by event. -/
  events : Table String := ∅
  /-- Style values by property. -/
  style : Table String := ∅
  dependency : Option Dependency := none
  /-- The kind before a mapping was applied; set once that has happened. -/
  mappedFrom : Option String := none
  deriving DecidableEq, Inhabited

inductive Node
  | element (e : Element) (children : List Node)
  | text (s : String)
  | dynamic (r : Reference)
  deriving Inhabited

namespace Node

mutual
def mapElements (f : Element → Element) : Node → Node
  | .element e children => .element (f e) (mapAllElements f children)
  | other => other

def mapAllElements (f : Element → Element) : List Node → List Node
  | [] => []
  | node :: rest => node.mapElements f :: mapAllElements f rest
end

mutual
def elements : Node → List Element
  | .element e children => e :: elementsOfAll children
  | _ => []

def elementsOfAll : List Node → List Element
  | [] => []
  | node :: rest => node.elements ++ elementsOfAll rest
end

end Node

/-- A reference inside a script: properties are members of `props`. -/
def Reference.expression (r : Reference) : String :=
  match r.kind with
  | .prop => "props." ++ r.id
  | .state | .attr | .localName => r.id

end Sitewright.Ui
