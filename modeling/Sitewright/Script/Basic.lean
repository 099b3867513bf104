import Sitewright.Markup.Basic

/-!
# Module scripts

The parts of a script module that the generators write: imports, constants, arrow functions and a
few kinds of expression, among them markup.
-/

namespace Sitewright.Script

structure NamedImport where
  imported : String
  binding : String
  deriving Repr, DecidableEq, Inhabited

structure ImportClause where
  default : Option String := none
  namespaceName : Option String := none
  named : List NamedImport := []
  deriving Repr, DecidableEq, Inhabited

def ImportClause.isSideEffect (c : ImportClause) : Bool :=
  c.default.isNone && c.namespaceName.isNone && c.named.isEmpty

inductive Export
  | none
  | named
  | default
  deriving Repr, DecidableEq, Inhabited

/-- An expression. Names and raw expressions are written as they are. -/
inductive Expr
  | identifier (name : String)
  | string (value : String)
  | raw (text : String)
  | markup (e : Markup.Element)
  | object (fields : List (String × Expr))
  | array (items : List Expr)
  | null
  deriving Repr, Inhabited

inductive Node
  | program (body : List Node)
  | importing (source : String) (clause : ImportClause)
  | constant (name : String) (value : Expr) (exported : Export)
  | function (name : String) (params : List String) (body : List Node) (exported : Export)
  | returning (value : Expr)
  | exportDefault (name : String)
  | statement (text : String)
  | comment (text : String)
  deriving Repr, Inhabited

def Node.push? (program statement : Node) : Option Node :=
  match program with
  | .program body => some (.program (body ++ [statement]))
  | _ => none

end Sitewright.Script
