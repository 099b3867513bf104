import Sitewright.Json.Token

/-!
# Reading JSON

A reader that goes through the tokens once and keeps the open containers on a stack. Containers
nested more than 127 deep are unreadable.
-/

namespace Sitewright.Json

/-- An open container: the items or fields read so far, the latest first. -/
inductive Frame
  | array (before : List Json)
  | object (before : List (Option String × Json)) (key : Option String)

inductive Expecting
  /-- A value, or the end of the array that was just opened. -/
  | value (canClose : Bool) (stack : List Frame)
  /-- A key, or the end of the object that was just opened. -/
  | key (canClose : Bool) (before : List (Option String × Json)) (stack : List Frame)
  | colon (before : List (Option String × Json)) (key : Option String) (stack : List Frame)
  /-- What follows a complete value. -/
  | next (v : Json) (stack : List Frame)

def depthLimit : Nat := 127

def atDepth (depth : Nat) (v : Json) : Json := if depth < depthLimit then v else .unreadable

/-- An object from its fields, the latest first. A key that cannot be read spoils it. -/
def closeObject (fields : List (Option String × Json)) : Json :=
  match fields.reverse.mapM fun e => e.1.map fun key => (key, e.2) with
  | some fields => .object fields
  | none => .unreadable

def step : Expecting → Token → Option Expecting
  | .value _ stack, .null => some (.next .null stack)
  | .value _ stack, .bool b => some (.next (.bool b) stack)
  | .value _ stack, .number n => some (.next ((n.map .number).getD .unreadable) stack)
  | .value _ stack, .string s => some (.next ((s.map .string).getD .unreadable) stack)
  | .value _ stack, .openBracket => some (.value true (.array [] :: stack))
  | .value _ stack, .openBrace => some (.key true [] stack)
  | .value true (.array [] :: stack), .closeBracket =>
    some (.next (atDepth stack.length (.array [])) stack)
  | .value _ _, _ => none
  | .key _ before stack, .string key => some (.colon before key stack)
  | .key true [] stack, .closeBrace => some (.next (atDepth stack.length (.object [])) stack)
  | .key _ _ _, _ => none
  | .colon before key stack, .colon => some (.value false (.object before key :: stack))
  | .colon _ _ _, _ => none
  | .next v (.array before :: stack), .comma => some (.value false (.array (v :: before) :: stack))
  | .next v (.array before :: stack), .closeBracket =>
    some (.next (atDepth stack.length (.array (v :: before).reverse)) stack)
  | .next v (.object before key :: stack), .comma => some (.key false ((key, v) :: before) stack)
  | .next v (.object before key :: stack), .closeBrace =>
    some (.next (atDepth stack.length (closeObject ((key, v) :: before))) stack)
  | .next _ _, _ => none

/-- The value that a state and the tokens still to come amount to. -/
def run : Expecting → List Token → Option Json
  | .next v [], [] => some v
  | _, [] => none
  | state, token :: rest => (step state token).bind (run · rest)

/-- Read a text that is one JSON value, with white space around its tokens at most. -/
def read? (text : String) : Option Json :=
  (tokensOf text.toList).bind (run (.value false []))

end Sitewright.Json
