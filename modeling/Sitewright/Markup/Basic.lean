/-!
# Markup trees

An element has a tag, attributes in the order in which they were set, and children: elements, text,
raw markup and expressions of the target framework.
-/

namespace Sitewright.Markup

/-- The value of an attribute. A flag is an attribute without a value. -/
inductive Attr
  | literal (value : String)
  | dynamic (expression : String)
  | flag
  deriving Repr, DecidableEq, Inhabited

/-- A child of an element. Text is escaped when written, raw markup is not. -/
inductive Child
  | element (tag : String) (attrs : List (String × Attr)) (children : List Child)
  | text (s : String)
  | raw (markup : String)
  | expression (s : String)
  deriving Repr, Inhabited

@[ext]
structure Element where
  tag : String
  attrs : List (String × Attr) := []
  children : List Child := []
  deriving Repr, Inhabited

def Element.toChild (e : Element) : Child := .element e.tag e.attrs e.children

def Child.element? : Child → Option Element
  | .element tag attrs children => some ⟨tag, attrs, children⟩
  | _ => none

def Child.isElement (c : Child) : Bool := c.element?.isSome

/-- Put a value under a key, in the place of the value that was there or else at the end. -/
def setAttr (key : String) (value : Attr) : List (String × Attr) → List (String × Attr)
  | [] => [(key, value)]
  | (k, v) :: rest => if k = key then (key, value) :: rest else (k, v) :: setAttr key value rest

namespace Element

def set (e : Element) (key : String) (value : Attr) : Element :=
  { e with attrs := setAttr key value e.attrs }

def withAttr (e : Element) (key value : String) : Element := e.set key (.literal value)

def withFlag (e : Element) (key : String) : Element := e.set key .flag

def attr? (e : Element) (key : String) : Option Attr := e.attrs.lookup key

def append (e : Element) (child : Child) : Element := { e with children := e.children ++ [child] }

def appendAll (e : Element) (children : List Child) : Element :=
  { e with children := e.children ++ children }

def prepend (e : Element) (child : Child) : Element := { e with children := child :: e.children }

def elements (e : Element) : List Element := e.children.filterMap Child.element?

end Element

mutual
/-- The first element with a tag, parents before children. -/
def Child.find? (tag : String) : Child → Option Element
  | .element t attrs children =>
    if t = tag then some ⟨t, attrs, children⟩ else findAmong? tag children
  | _ => none

def findAmong? (tag : String) : List Child → Option Element
  | [] => none
  | c :: rest => (Child.find? tag c).or (findAmong? tag rest)
end

mutual
def Child.modify? (tag : String) (f : Element → Element) : Child → Option Child
  | .element t attrs children =>
    if t = tag then some (f ⟨t, attrs, children⟩).toChild
    else (modifyAmong? tag f children).map (.element t attrs)
  | _ => none

def modifyAmong? (tag : String) (f : Element → Element) : List Child → Option (List Child)
  | [] => none
  | c :: rest =>
    match c.modify? tag f with
    | some c => some (c :: rest)
    | none => (modifyAmong? tag f rest).map (c :: ·)
end

def Element.find? (e : Element) (tag : String) : Option Element := e.toChild.find? tag

def Element.modify? (e : Element) (tag : String) (f : Element → Element) : Option Element :=
  (e.toChild.modify? tag f).bind Child.element?

@[simp] theorem Element.element?_toChild (e : Element) : e.toChild.element? = some e := rfl

end Sitewright.Markup
