import Sitewright.Asset
import Sitewright.Text.Basic
import Sitewright.Ui.Codec

/-!
# Components

A component is a named tree with its states, styles and output options. Its file name, its path as
a module and the name of its class follow from its name unless the options give them.
-/

namespace Sitewright

structure StateDefinition where
  defaultValue : Json.Document := .null
  deriving Inhabited

structure OutputOptions where
  fileName : Option String := none
  /-- Folders below the output path of the section. -/
  folderPath : List String := []
  className : Option String := none
  deriving Repr, DecidableEq, Inhabited

structure Seo where
  title : Option String := none
  metaTags : List (Table String) := []
  assets : List Asset := []
  deriving DecidableEq, Inhabited

structure DesignLanguage where
  tokens : Table String := ∅
  deriving DecidableEq, Inhabited

abbrev StyleSets := Table (Table String)

structure Component where
  name : String
  node : Ui.Node
  states : Table StateDefinition := ∅
  output : OutputOptions := {}
  seo : Option Seo := none
  styleSets : StyleSets := ∅
  designLanguage : Option DesignLanguage := none
  deriving Inhabited

namespace Component

def fileName (c : Component) : String := c.output.fileName.getD (dashCase c.name)

/-- The path of the component's module below the folder of its section. -/
def modulePath (c : Component) : String := "/".intercalate (c.output.folderPath ++ [c.fileName])

def className (c : Component) : String := c.output.className.getD (upperCamelCase c.name)

/-- The component written under another file name, its class keeping its name. -/
def renamed (c : Component) (fileName : String) : Component :=
  { c with output :=
    { c.output with className := some c.className, fileName := some fileName } }

end Component

open Json

def StateDefinition.toJson (s : StateDefinition) : Json :=
  .object [("defaultValue", s.defaultValue.value)]

def StateDefinition.ofJson? (j : Json) : Option StateDefinition := do
  match ← j.record? [["defaultValue"]] with
  | [value] => pure { defaultValue := ← defaulted Document.ofJson? .null value }
  | _ => none

def OutputOptions.toJson (o : OutputOptions) : Json :=
  .object (fieldIfSome "fileName" .string o.fileName ++
    [("folderPath", ofStrings o.folderPath)] ++
    fieldIfSome "componentClassName" .string o.className)

def OutputOptions.ofJson? (j : Json) : Option OutputOptions := do
  match ← j.record? [["fileName"], ["folderPath"], ["componentClassName"]] with
  | [fileName, folderPath, className] =>
    pure { fileName := ← nullable string? fileName
           folderPath := ← defaulted (list? string?) [] folderPath
           className := ← nullable string? className }
  | _ => none

def Seo.toJson (s : Seo) : Json :=
  .object [("title", ofOption .string s.title), ("metaTags", ofItems ofStringTable s.metaTags),
    ("assets", ofItems Asset.toJson s.assets)]

def Seo.ofJson? (j : Json) : Option Seo := do
  match ← j.record? [["title"], ["metaTags"], ["assets"]] with
  | [title, metaTags, assets] =>
    pure { title := ← nullable string? title
           metaTags := ← defaulted (list? (table? string?)) [] metaTags
           assets := ← defaulted (list? Asset.ofJson?) [] assets }
  | _ => none

def DesignLanguage.toJson (d : DesignLanguage) : Json :=
  .object [("tokens", ofStringTable d.tokens)]

def DesignLanguage.ofJson? (j : Json) : Option DesignLanguage := do
  match ← j.record? [["tokens"]] with
  | [tokens] => pure { tokens := ← defaulted (table? string?) ∅ tokens }
  | _ => none

def styleSets? : Json → Option StyleSets := table? (table? string?)

def Component.toJson (c : Component) : Json :=
  .object ([("name", .string c.name), ("node", c.node.toJson),
      ("stateDefinitions", ofTable StateDefinition.toJson c.states),
      ("outputOptions", c.output.toJson)] ++
    fieldIfSome "seo" Seo.toJson c.seo ++
    [("styleSetDefinitions", ofTable ofStringTable c.styleSets)] ++
    fieldIfSome "designLanguage" DesignLanguage.toJson c.designLanguage)

def Component.ofJson? (j : Json) : Option Component := do
  match ← j.record? [["name"], ["node"], ["stateDefinitions"], ["outputOptions"], ["seo"],
    ["styleSetDefinitions"], ["designLanguage"]] with
  | [name, node, states, output, seo, styleSets, designLanguage] =>
    pure { name := ← required string? name
           node := ← required (Ui.Node.ofJson? .plain) node
           states := ← defaulted (table? StateDefinition.ofJson?) ∅ states
           output := ← defaulted OutputOptions.ofJson? {} output
           seo := ← nullable Seo.ofJson? seo
           styleSets := ← defaulted styleSets? ∅ styleSets
           designLanguage := ← nullable DesignLanguage.ofJson? designLanguage }
  | _ => none

end Sitewright
