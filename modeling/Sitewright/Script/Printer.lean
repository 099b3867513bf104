import Sitewright.Markup.Printer
import Sitewright.Script.Basic
import Sitewright.Text.Basic

/-!
# Writing scripts

Two spaces of indentation, single-quoted strings, no semicolons. Markup inside a script is written
in the dialect `jsx`.
-/

namespace Sitewright.Script

open Markup (Dialect indentation)

def escaped (c : Char) : List Char :=
  if c = '\\' then ['\\', '\\'] else if c = '\'' then ['\\', '\''] else [c]

def quoted (s : String) : String := String.ofList ('\'' :: s.toList.flatMap escaped ++ ['\''])

def escapedInJsx (c : Char) : List Char :=
  if c = '\x7b' then "&#123;".toList
  else if c = '\x7d' then "&#125;".toList
  else Markup.escapedInText c

/-- Markup inside scripts. Attribute values that are computed stand in braces, and an element
without children ends with its tag. -/
def jsx : Dialect where
  attrText key
    | .literal value => " " ++ key ++ "=\"" ++ replaceChar '"' "&quot;" value ++ "\""
    | .dynamic value => " " ++ key ++ "=\x7b" ++ value ++ "\x7d"
    | .flag => " " ++ key
  ending _ children := if children.isEmpty then some " />" else none
  textIn _ s := String.ofList (s.toList.flatMap escapedInJsx)
  expressionText s := "\x7b" ++ s ++ "\x7d"

def NamedImport.text (n : NamedImport) : String :=
  if n.imported = n.binding then n.binding else n.imported ++ " as " ++ n.binding

def ImportClause.bindings (c : ImportClause) : List String :=
  c.default.toList ++ (c.namespaceName.map ("* as " ++ ·)).toList ++
    (if c.named.isEmpty then []
      else ["\x7b " ++ ", ".intercalate (c.named.map NamedImport.text) ++ " \x7d"])

/-- An import declaration. The source stands between the quotes as it is. -/
def importText (source : String) (c : ImportClause) : String :=
  if c.isSideEffect then "import '" ++ source ++ "'"
  else "import " ++ ", ".intercalate c.bindings ++ " from '" ++ source ++ "'"

def Export.text : Export → String
  | .none => ""
  | .named => "export "
  | .default => "export default "

mutual
def Expr.text (depth : Nat) : Expr → String
  | .identifier name | .raw name => name
  | .string value => quoted value
  | .null => "null"
  | .array items => "[" ++ ", ".intercalate (Expr.texts depth items) ++ "]"
  | .object [] => "\x7b\x7d"
  | .object fields =>
    "\x7b\n" ++ Expr.fieldLines (depth + 1) fields ++ indentation depth ++ "\x7d"
  | .markup e => trimBoth (jsx.write depth "" e.toChild)

def Expr.texts (depth : Nat) : List Expr → List String
  | [] => []
  | e :: rest => e.text depth :: Expr.texts depth rest

def Expr.fieldLines (depth : Nat) : List (String × Expr) → String
  | [] => ""
  | (key, value) :: rest =>
    indentation depth ++ key ++ ": " ++ value.text depth ++ ",\n" ++ Expr.fieldLines depth rest
end

mutual
def Node.write (depth : Nat) : Node → String
  | .program body => Node.writeAll depth body
  | .importing source clause => indentation depth ++ importText source clause ++ "\n"
  | .constant name value exported =>
    indentation depth ++ exported.text ++ "const " ++ name ++ " = " ++ value.text depth ++ "\n"
  | .function name params body exported =>
    indentation depth ++ exported.text ++ "const " ++ name ++ " = (" ++ ", ".intercalate params ++
      ") => \x7b\n" ++ Node.writeAll (depth + 1) body ++ indentation depth ++ "\x7d\n"
  | .returning (.markup e) =>
    indentation depth ++ "return (\n" ++ jsx.write (depth + 1) "" e.toChild ++
      indentation depth ++ ")\n"
  | .returning value => indentation depth ++ "return " ++ value.text depth ++ "\n"
  | .exportDefault name => indentation depth ++ "export default " ++ name ++ "\n"
  | .statement text => indentation depth ++ text ++ "\n"
  | .comment text => indentation depth ++ "// " ++ text ++ "\n"

def Node.writeAll (depth : Nat) : List Node → String
  | [] => ""
  | node :: rest => node.write depth ++ Node.writeAll depth rest
end

def Node.text (node : Node) : String := trimEnd (node.write 0)

end Sitewright.Script
