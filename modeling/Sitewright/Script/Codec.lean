import Sitewright.Markup.Codec
import Sitewright.Script.Basic

/-!
# Scripts as JSON
-/

namespace Sitewright.Script

open Json

def NamedImport.toJson (n : NamedImport) : Json :=
  .object [("imported", .string n.imported), ("local", .string n.binding)]

def NamedImport.ofJson? (j : Json) : Option NamedImport := do
  match ← j.record? [["imported"], ["local"]] with
  | [imported, binding] =>
    pure { imported := ← required string? imported, binding := ← required string? binding }
  | _ => none

def ImportClause.toJson (c : ImportClause) : Json :=
  .object [("default", ofOption .string c.default), ("namespace", ofOption .string c.namespaceName),
    ("named", ofItems NamedImport.toJson c.named)]

def ImportClause.ofJson? (j : Json) : Option ImportClause := do
  match ← j.record? [["default"], ["namespace"], ["named"]] with
  | [default, namespaceName, named] =>
    pure { default := ← nullable string? default
           namespaceName := ← nullable string? namespaceName
           named := ← required (list? NamedImport.ofJson?) named }
  | _ => none

def Export.toJson : Export → Json
  | .none => .string "None"
  | .named => .string "Named"
  | .default => .string "Default"

def Export.ofJson? (j : Json) : Option Export := do
  match ← j.word? with
  | "None" => pure .none
  | "Named" => pure .named
  | "Default" => pure .default
  | _ => none

def caseJson (name : String) (content : Json) : Json := .object [(name, content)]

mutual
def Expr.toJson : Expr → Json
  | .identifier name => caseJson "Identifier" (.string name)
  | .string value => caseJson "Str" (.string value)
  | .raw text => caseJson "Raw" (.string text)
  | .markup e => caseJson "Jsx" e.toJson
  | .object fields => caseJson "Object" (.array (Expr.fieldsToJson fields))
  | .array items => caseJson "Array" (.array (Expr.itemsToJson items))
  | .null => .string "Null"

def Expr.itemsToJson : List Expr → List Json
  | [] => []
  | e :: rest => e.toJson :: Expr.itemsToJson rest

def Expr.fieldsToJson : List (String × Expr) → List Json
  | [] => []
  | (key, e) :: rest => .array [.string key, e.toJson] :: Expr.fieldsToJson rest
end

def Expr.within? : Nat → Json → Option Expr
  | 0, _ => none
  | depth + 1, j => do
    match ← j.variant? with
    | ("Identifier", content) => (required string? content).map .identifier
    | ("Str", content) => (required string? content).map .string
    | ("Raw", content) => (required string? content).map .raw
    | ("Jsx", content) => (required Markup.Element.ofJson? content).map .markup
    | ("Object", content) =>
      (required (list? (pair? string? (Expr.within? depth))) content).map .object
    | ("Array", content) => (required (list? (Expr.within? depth)) content).map .array
    | ("Null", content) => (noContent content).map fun _ => .null
    | _ => none

def Expr.ofJson? (j : Json) : Option Expr := Expr.within? (j.depth + 1) j

mutual
def Node.toJson : Node → Json
  | .program body => caseJson "Program" (.array (Node.bodyToJson body))
  | .importing source clause =>
    caseJson "Import" (.object [("source", .string source), ("clause", clause.toJson)])
  | .constant name value exported => caseJson "Const" (.object
      [("name", .string name), ("value", value.toJson), ("export", exported.toJson)])
  | .function name params body exported => caseJson "Function" (.object
      [("name", .string name), ("params", ofStrings params),
        ("body", .array (Node.bodyToJson body)), ("export", exported.toJson)])
  | .returning value => caseJson "Return" value.toJson
  | .exportDefault name => caseJson "ExportDefault" (.string name)
  | .statement text => caseJson "Statement" (.string text)
  | .comment text => caseJson "Comment" (.string text)

def Node.bodyToJson : List Node → List Json
  | [] => []
  | node :: rest => node.toJson :: Node.bodyToJson rest
end

def importing? (j : Json) : Option Node := do
  match ← (← j.object?).record? [["source"], ["clause"]] with
  | [source, clause] =>
    pure (.importing (← required string? source) (← required ImportClause.ofJson? clause))
  | _ => none

def constant? (j : Json) : Option Node := do
  match ← (← j.object?).record? [["name"], ["value"], ["export"]] with
  | [name, value, exported] =>
    pure (.constant (← required string? name) (← required Expr.ofJson? value)
      (← required Export.ofJson? exported))
  | _ => none

def functionWith? (node? : Json → Option Node) (j : Json) : Option Node := do
  match ← (← j.object?).record? [["name"], ["params"], ["body"], ["export"]] with
  | [name, params, body, exported] =>
    pure (.function (← required string? name) (← required (list? string?) params)
      (← required (list? node?) body) (← required Export.ofJson? exported))
  | _ => none

def Node.within? : Nat → Json → Option Node
  | 0, _ => none
  | depth + 1, j => do
    match ← j.variant? with
    | ("Program", content) => (required (list? (Node.within? depth)) content).map .program
    | ("Import", content) => required importing? content
    | ("Const", content) => required constant? content
    | ("Function", content) => required (functionWith? (Node.within? depth)) content
    | ("Return", content) => (required Expr.ofJson? content).map .returning
    | ("ExportDefault", content) => (required string? content).map .exportDefault
    | ("Statement", content) => (required string? content).map .statement
    | ("Comment", content) => (required string? content).map .comment
    | _ => none

def Node.ofJson? (j : Json) : Option Node := Node.within? (j.depth + 1) j

end Sitewright.Script
