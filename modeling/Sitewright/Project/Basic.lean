import Sitewright.Component
import Sitewright.Fault
import Sitewright.Json.Reader
import Sitewright.Text.Basic

/-!
# Projects

A project has global settings, a root component, routed pages and shared components by name.
-/

namespace Sitewright

structure ManifestIcon where
  src : String
  iconType : Option String := none
  sizes : Option String := none
  deriving Repr, DecidableEq, Inhabited

structure WebManifest where
  shortName : Option String := none
  name : Option String := none
  icons : List ManifestIcon := []
  backgroundColor : Option String := none
  themeColor : Option String := none
  display : Option String := none
  orientation : Option String := none
  startUrl : Option String := none
  deriving Repr, DecidableEq, Inhabited

structure Settings where
  title : Option String := none
  language : Option String := none
  deriving Repr, DecidableEq, Inhabited

structure CustomCode where
  head : Option String := none
  body : Option String := none
  deriving Repr, DecidableEq, Inhabited

structure Globals where
  settings : Settings := {}
  metaTags : List (Table String) := []
  assets : List Asset := []
  manifest : Option WebManifest := none
  customCode : Option CustomCode := none
  deriving DecidableEq, Inhabited

structure Page where
  navLink : String
  component : Component
  deriving Inhabited

structure Project where
  name : String
  globals : Globals := {}
  /-- The application root, which carries the style sets and design tokens of the project. -/
  root : Component
  pages : List Page := []
  /-- The shared components by key. -/
  components : Table Component := ∅
  deriving Inhabited

def Component.outputKey (c : Component) : List String := c.output.folderPath ++ [c.fileName]

/-- Check that pages have names and files of their own, given the files of the pages before. -/
def checkPages (taken : List (List String)) : List Page → Outcome Unit
  | [] => .ok ()
  | page :: rest =>
    if isBlankText page.component.name then
      .error (.invalidUidl s!"page at '{page.navLink}' has an empty name")
    else if taken.contains page.component.outputKey then
      .error (.invalidUidl s!"two pages write to the same file '{page.component.fileName}'")
    else checkPages (page.component.outputKey :: taken) rest

def checkComponents : List (String × Component) → Outcome Unit
  | [] => .ok ()
  | (key, component) :: rest =>
    if isBlankText component.name then .error (.invalidUidl s!"component '{key}' has an empty name")
    else checkComponents rest

def Project.validate (p : Project) : Outcome Unit := do
  if isBlankText p.name then .error (.invalidUidl "project name is empty")
  checkPages [] p.pages
  checkComponents p.components.entries

open Json

def ManifestIcon.toJson (i : ManifestIcon) : Json :=
  .object ([("src", .string i.src)] ++ fieldIfSome "type" .string i.iconType ++
    fieldIfSome "sizes" .string i.sizes)

def ManifestIcon.ofJson? (j : Json) : Option ManifestIcon := do
  match ← j.record? [["src"], ["type"], ["sizes"]] with
  | [src, iconType, sizes] =>
    pure { src := ← required string? src
           iconType := ← nullable string? iconType
           sizes := ← nullable string? sizes }
  | _ => none

def WebManifest.fields (m : WebManifest) : List (String × Json) :=
  fieldIfSome "short_name" .string m.shortName ++ fieldIfSome "name" .string m.name ++
    [("icons", ofItems ManifestIcon.toJson m.icons)] ++
    fieldIfSome "background_color" .string m.backgroundColor ++
    fieldIfSome "theme_color" .string m.themeColor ++ fieldIfSome "display" .string m.display ++
    fieldIfSome "orientation" .string m.orientation ++ fieldIfSome "start_url" .string m.startUrl

def WebManifest.toJson (m : WebManifest) : Json := .object m.fields

def WebManifest.ofJson? (j : Json) : Option WebManifest := do
  match ← j.record? [["short_name"], ["name"], ["icons"], ["background_color"], ["theme_color"],
    ["display"], ["orientation"], ["start_url"]] with
  | [shortName, name, icons, backgroundColor, themeColor, display, orientation, startUrl] =>
    pure { shortName := ← nullable string? shortName
           name := ← nullable string? name
           icons := ← defaulted (list? ManifestIcon.ofJson?) [] icons
           backgroundColor := ← nullable string? backgroundColor
           themeColor := ← nullable string? themeColor
           display := ← nullable string? display
           orientation := ← nullable string? orientation
           startUrl := ← nullable string? startUrl }
  | _ => none

def Settings.toJson (s : Settings) : Json :=
  .object [("title", ofOption .string s.title), ("language", ofOption .string s.language)]

def Settings.ofJson? (j : Json) : Option Settings := do
  match ← j.record? [["title"], ["language"]] with
  | [title, language] =>
    pure { title := ← nullable string? title, language := ← nullable string? language }
  | _ => none

def CustomCode.toJson (c : CustomCode) : Json :=
  .object [("head", ofOption .string c.head), ("body", ofOption .string c.body)]

def CustomCode.ofJson? (j : Json) : Option CustomCode := do
  match ← j.record? [["head"], ["body"]] with
  | [head, body] => pure { head := ← nullable string? head, body := ← nullable string? body }
  | _ => none

def Globals.toJson (g : Globals) : Json :=
  .object [("settings", g.settings.toJson), ("meta", ofItems ofStringTable g.metaTags),
    ("assets", ofItems Asset.toJson g.assets), ("manifest", ofOption WebManifest.toJson g.manifest),
    ("customCode", ofOption CustomCode.toJson g.customCode)]

def Globals.ofJson? (j : Json) : Option Globals := do
  match ← j.record? [["settings"], ["meta"], ["assets"], ["manifest"], ["customCode"]] with
  | [settings, metaTags, assets, manifest, customCode] =>
    pure { settings := ← defaulted Settings.ofJson? {} settings
           metaTags := ← defaulted (list? (table? string?)) [] metaTags
           assets := ← defaulted (list? Asset.ofJson?) [] assets
           manifest := ← nullable WebManifest.ofJson? manifest
           customCode := ← nullable CustomCode.ofJson? customCode }
  | _ => none

def Page.toJson (p : Page) : Json :=
  .object [("navLink", .string p.navLink), ("component", p.component.toJson)]

def Page.ofJson? (j : Json) : Option Page := do
  match ← j.record? [["navLink"], ["component"]] with
  | [navLink, component] =>
    pure { navLink := ← required string? navLink
           component := ← required Component.ofJson? component }
  | _ => none

def Project.toJson (p : Project) : Json :=
  .object [("name", .string p.name), ("globals", p.globals.toJson), ("root", p.root.toJson),
    ("pages", ofItems Page.toJson p.pages), ("components", ofTable Component.toJson p.components)]

def Project.ofJson? (j : Json) : Option Project := do
  match ← j.record? [["name"], ["globals"], ["root"], ["pages"], ["components"]] with
  | [name, globals, root, pages, components] =>
    pure { name := ← required string? name
           globals := ← defaulted Globals.ofJson? {} globals
           root := ← required Component.ofJson? root
           pages := ← defaulted (list? Page.ofJson?) [] pages
           components := ← defaulted (table? Component.ofJson?) ∅ components }
  | _ => none

def Project.read (source : String) : Outcome Project := do
  let project ← Outcome.ofDecoded ((Json.read? source).bind Project.ofJson?)
  project.validate
  pure project

def Component.read (source : String) : Outcome Component :=
  Outcome.ofDecoded ((Json.read? source).bind Component.ofJson?)

end Sitewright
