import Sitewright.Generator.Basic
import Sitewright.Html.Document
import Sitewright.Mapping.Basic
import Sitewright.React.ImportStatements
import Sitewright.React.Component
import Sitewright.Style.Format
import Sitewright.Style.Sheets
import Sitewright.Text.Basic

/-!
# The generators that come with the library
-/

namespace Sitewright

/-- Removes white space at line ends, and ends every file with one line feed. -/
def normalizeWhitespace : PostProcessor where
  name := "normalize-whitespace"
  process outputs := .ok (outputs.map normalizeText)

def formatCss : PostProcessor where
  name := "css-format"
  process outputs :=
    match outputs.get? "css" with
    | none => .ok outputs
    | some text =>
      match Style.format? text with
      | some formatted => .ok (outputs.insert "css" formatted)
      | none => .error (.postProcessorFailed "css-format" "invalid style sheet")

namespace Generator

def reactComponent : Generator where
  mapping := .react
  plugins := [Style.componentSheet, React.component, React.importStatements]
  postProcessors := [normalizeWhitespace]

def reactRouter : Generator where
  mapping := .react
  plugins := [React.router, React.importStatements]
  postProcessors := [normalizeWhitespace]

def htmlComponent : Generator where
  mapping := .html
  plugins := [Style.componentSheet, Html.template, Html.head]
  postProcessors := [normalizeWhitespace]

def projectStyleSheet : Generator where
  plugins := [Style.projectSheet]
  postProcessors := [formatCss, normalizeWhitespace]

/-- Links chunks that are already there. -/
def entryFile : Generator where
  postProcessors := [normalizeWhitespace]

end Generator

def builtinPlugins : List Plugin :=
  [Style.componentSheet, Html.template, Html.head, React.component, React.importStatements,
    React.router, Style.projectSheet]

end Sitewright
