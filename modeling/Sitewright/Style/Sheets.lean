import Sitewright.Draft
import Sitewright.Style.Rule
import Sitewright.Ui.Node

/-!
# Style sheets of components and projects

Every element with a style gets a class of its own, and the style becomes the rule of that class.
The rules of a component are its style sheet; that of the project declares its design tokens and
style sets.
-/

namespace Sitewright.Style

structure ClassStyle where
  className : String
  style : Table String
  deriving DecidableEq, Inhabited

def ClassStyle.rule (c : ClassStyle) : Rule := ruleOf ("." ++ c.className) c.style

/-- The names to try for a class: the base, then the base with a number. -/
def candidate (base : String) : Nat → String
  | 0 => base
  | n + 1 => base ++ "-" ++ toString (n + 1)

/-- The first candidate that is not in use. Among one more candidates than there are names in use,
one is free. -/
def freshName (base : String) (used : List String) : String :=
  let base := if base.isEmpty then "element" else base
  (((List.range (used.length + 1)).map (candidate base)).find? (!used.contains ·)).getD base

def classNameFor (e : Ui.Element) (used : List String) : String :=
  freshName (dashCase (e.name.getD e.kind)) used

/-- The element with one more class. A class that is not static is replaced. -/
def withClass (e : Ui.Element) (className : String) : Ui.Element :=
  let classes := match e.attrs.get? "class" with
    | some (.literal existing) =>
      if existing.isEmpty then className else existing ++ " " ++ className
    | _ => className
  { e with attrs := e.attrs.insert "class" (.literal classes) }

def extractElement (used : List String) (e : Ui.Element) : Ui.Element × List ClassStyle :=
  if e.style.isEmpty then (e, [])
  else
    let className := classNameFor e used
    (withClass e className, [⟨className, e.style⟩])

mutual
def extract (used : List String) : Ui.Node → Ui.Node × List ClassStyle
  | .element e children =>
    let (e, own) := extractElement used e
    let (children, below) := extractAll (used ++ own.map (·.className)) children
    (.element e children, own ++ below)
  | other => (other, [])

def extractAll (used : List String) : List Ui.Node → List Ui.Node × List ClassStyle
  | [] => ([], [])
  | node :: rest =>
    let (node, first) := extract used node
    let (rest, later) := extractAll (used ++ first.map (·.className)) rest
    (node :: rest, first ++ later)
end

def extractStyles (node : Ui.Node) : Ui.Node × List ClassStyle := extract [] node

def sheetChunks (fileName : String) (styles : List ClassStyle) : List Chunk :=
  if styles.isEmpty then []
  else
    let path := "./" ++ fileName ++ ".css"
    [Chunk.ofText "style" .css (sheetText (styles.map ClassStyle.rule)),
      Chunk.ofDependencies "style-import" .css [(path, (Dependency.localPath path).sideEffect)]]

/-- Moves the styles of elements into a style sheet, and imports the project's style sheet. -/
def componentSheet : Plugin where
  name := "css"
  run d :=
    let (node, styles) := extractStyles d.component.node
    let d := { d with component := { d.component with node } }
    (d.addChunks (sheetChunks d.component.fileName styles)).importAll
      d.options.globalStyleSheet?.toList

def declaredTokens (d : Draft) : Table String :=
  ((d.options.designLanguage.or d.component.designLanguage).map (·.tokens)).getD ∅

/-- The style sets of a project's style sheet: those of the options, if they have any. -/
def declaredSets (d : Draft) : StyleSets :=
  match d.options.styleSheet with
  | some sheet => if sheet.styleSets.isEmpty then d.component.styleSets else sheet.styleSets
  | none => d.component.styleSets

def projectRules (d : Draft) : List Rule :=
  (if (declaredTokens d).isEmpty then [] else [tokensRule (declaredTokens d)]) ++
    setRules (declaredSets d)

def projectSheet : Plugin where
  name := "project-stylesheet"
  run d := .ok (d.addChunks [Chunk.ofText "project-style" .css (sheetText (projectRules d))])

end Sitewright.Style
