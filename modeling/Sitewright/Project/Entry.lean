import Sitewright.Html.Document
import Sitewright.Project.Basic

/-!
# Entry documents

The HTML document that hosts an application: its head and body are made from the global settings of
the project and from options of the entry.
-/

namespace Sitewright

/-- An attribute of a custom tag, a flag if it has no value. -/
structure CustomAttribute where
  key : String
  value : Option String := none
  deriving Repr, DecidableEq, Inhabited

inductive TargetTag
  | head
  | body
  deriving Repr, DecidableEq, Inhabited

structure CustomTag where
  name : String
  target : TargetTag := .body
  content : Option String := none
  attributes : List CustomAttribute := []
  deriving Repr, DecidableEq, Inhabited

structure EntryOptions where
  assetsPrefix : Option String := none
  /-- Raw markup in the place of the application's root element. -/
  appRoot : Option String := none
  headContent : Option String := none
  customTags : List CustomTag := []
  deriving Repr, DecidableEq, Inhabited

namespace Entry

open Markup (Element Child)

def customTag (tag : CustomTag) : Element :=
  let children := (tag.content.map Child.text).toList
  tag.attributes.foldl
    (fun e a => match a.value with
      | some value => e.withAttr a.key value
      | none => e.withFlag a.key)
    { tag := tag.name, children }

def customTags (options : EntryOptions) (target : TargetTag) : List Element :=
  (options.customTags.filter (·.target = target)).map customTag

def link (rel href : String) : Element :=
  ({ tag := "link" } : Element).withAttr "rel" rel |>.withAttr "href" href

def iconTag (options : AssetOptions) (path : String) : Element :=
  let icon := link "shortcut icon" path
  let icon := match options.iconType with
    | some value => icon.withAttr "type" value
    | none => icon
  match options.iconSizes with
  | some value => icon.withAttr "sizes" value
  | none => icon

/-- A script with an address has no content. -/
def scriptTag (options : AssetOptions) (path content : Option String) : Element :=
  let script := ({ tag := "script" } : Element).withAttr "type" "text/javascript"
  match path, content with
  | some path, _ =>
    let script := script.withAttr "src" path
    let script := if options.defer then script.withFlag "defer" else script
    if options.isAsync then script.withFlag "async" else script
  | none, some content => script.append (.text content)
  | none, none => script

def scriptTarget? (a : Asset) : Option TargetTag :=
  match a.kind with
  | .script => some (if a.options.target = some "body" then .body else .head)
  | _ => none

def assetLink? (kind : AssetKind) (options : AssetOptions) (path : String) : Option Element :=
  match kind with
  | .canonical => some (link "canonical" path)
  | .style | .font => some (link "stylesheet" path)
  | .icon => some (iconTag options path)
  | .script => none

def inlineStyle? (a : Asset) : Option Element :=
  match a.kind with
  | .style => a.content.map fun s => { tag := "style", children := [.text s] }
  | _ => none

def assetTags (assetsPrefix : String) (target : TargetTag) (a : Asset) : List Element :=
  let path := a.path.map (prefixAssetPath assetsPrefix)
  let headOnly := (path.bind (assetLink? a.kind a.options)).toList ++ (inlineStyle? a).toList
  (if target = .head then headOnly else []) ++
    (if scriptTarget? a = some target then [scriptTag a.options path a.content] else [])

def headChildren (p : Project) (options : EntryOptions) : List Child :=
  let globals := p.globals
  let assetsPrefix := options.assetsPrefix.getD ""
  let manifest := if globals.manifest.isSome then
    [link "manifest" (dropEndSlashes assetsPrefix ++ "/manifest.json")] else []
  let elements := (globals.settings.title.map Html.titleTag).toList ++ customTags options .head ++
    manifest ++ globals.metaTags.map (Html.metaTag assetsPrefix) ++
    globals.assets.flatMap (assetTags assetsPrefix .head)
  elements.map (·.toChild) ++ (options.headContent.map Child.raw).toList ++
    ((globals.customCode.bind (·.head)).map Child.raw).toList

def bodyChildren (p : Project) (options : EntryOptions) : List Child :=
  let globals := p.globals
  let root := match options.appRoot with
    | some markup => Child.raw markup
    | none => (({ tag := "div" } : Element).withAttr "id" "app").toChild
  let elements := customTags options .body ++
    globals.assets.flatMap (assetTags (options.assetsPrefix.getD "") .body)
  root :: elements.map (·.toChild) ++ ((globals.customCode.bind (·.body)).map Child.raw).toList

def document (p : Project) (options : EntryOptions) : Element :=
  let head : Element := { tag := "head", children := headChildren p options }
  let body : Element := { tag := "body", children := bodyChildren p options }
  let html : Element := match p.globals.settings.language with
    | some language => ({ tag := "html" } : Element).withAttr "lang" language
    | none => { tag := "html" }
  html.appendAll [head.toChild, body.toChild]

def chunks (p : Project) (options : EntryOptions) : ChunkStore :=
  .ofList [Html.doctype, Html.documentChunk "html-node" (document p options)]

end Entry

open Json

def CustomAttribute.toJson (a : CustomAttribute) : Json :=
  .object [("attributeKey", .string a.key), ("attributeValue", ofOption .string a.value)]

def CustomAttribute.ofJson? (form : Form) (j : Json) : Option CustomAttribute := do
  match ← form.record? [["attributeKey"], ["attributeValue"]] j with
  | [key, value] => pure { key := ← required string? key, value := ← nullable string? value }
  | _ => none

def TargetTag.name : TargetTag → String
  | head => "head"
  | body => "body"

def TargetTag.ofJson? (form : Form) (j : Json) : Option TargetTag := do
  match ← form.word? j with
  | "head" => pure .head
  | "body" => pure .body
  | _ => none

def CustomTag.toJson (t : CustomTag) : Json :=
  .object [("tagName", .string t.name), ("targetTag", .string t.target.name),
    ("content", ofOption .string t.content),
    ("attributes", ofItems CustomAttribute.toJson t.attributes)]

def CustomTag.ofJson? (form : Form) (j : Json) : Option CustomTag := do
  match ← form.record? [["tagName"], ["targetTag"], ["content"], ["attributes"]] j with
  | [name, target, content, attributes] =>
    pure { name := ← required string? name
           target := ← defaulted (TargetTag.ofJson? form) .body target
           content := ← nullable string? content
           attributes := ← defaulted (list? (CustomAttribute.ofJson? form)) [] attributes }
  | _ => none

def EntryOptions.toJson (o : EntryOptions) : Json :=
  .object [("assetsPrefix", ofOption .string o.assetsPrefix),
    ("appRootOverride", ofOption .string o.appRoot),
    ("customHeadContent", ofOption .string o.headContent),
    ("customTags", ofItems CustomTag.toJson o.customTags)]

def EntryOptions.ofJson? (form : Form) (j : Json) : Option EntryOptions := do
  match ← form.record? [["assetsPrefix"], ["appRootOverride"], ["customHeadContent"],
    ["customTags"]] j with
  | [assetsPrefix, appRoot, headContent, customTags] =>
    pure { assetsPrefix := ← nullable string? assetsPrefix
           appRoot := ← nullable string? appRoot
           headContent := ← nullable string? headContent
           customTags := ← defaulted (list? (CustomTag.ofJson? form)) [] customTags }
  | _ => none

end Sitewright
