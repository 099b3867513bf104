import Sitewright.Html.Inline

/-!
# HTML documents of components

The document has the component's markup in its body. Its head is made from the imports of the
draft, which are style sheets and scripts, and from what the component says for search engines.
-/

namespace Sitewright.Html

def doctype : Chunk := Chunk.ofText "doctype" .html "<!DOCTYPE html>"

def documentChunk (name : String) (html : Markup.Element) : Chunk :=
  (Chunk.ofMarkup name .html html).after ["doctype"]

def body (d : Draft) : Outcome (Markup.Element × List String) := do
  let scope : Scope := ⟨d.mapping, d.options⟩
  let (children, sheets) ← scope.expand [d.component.name] d.component d.component.node
  pure ({ tag := "body", children }, sheets)

/-- Makes the document, and imports the style sheets of inlined components. -/
def template : Plugin where
  name := "html-template"
  run d := do
    let (body, sheets) ← body d
    let d ← d.importAll (sheets.map fun path => (path, (Dependency.localPath path).sideEffect))
    let html : Markup.Element := { tag := "html", children := [body.toChild] }
    pure (d.addChunks [doctype, documentChunk "html-template" html])

/-- A link to a style sheet, or a script. -/
def importTag (source : String) : Markup.Element :=
  if endsWithText ".css" source then
    ({ tag := "link" } : Markup.Element).withAttr "href" source |>.withAttr "rel" "stylesheet"
  else
    ({ tag := "script" } : Markup.Element).withAttr "type" "text/javascript"
      |>.withAttr "src" source

def titleTag (title : String) : Markup.Element := { tag := "title", children := [.text title] }

def metaTag (assetsPrefix : String) (values : Table String) : Markup.Element :=
  values.entries.foldl (fun tag e => tag.withAttr e.1 (prefixAssetPath assetsPrefix e.2))
    { tag := "meta" }

def canonicalTag (path : String) : Markup.Element :=
  ({ tag := "link" } : Markup.Element).withAttr "rel" "canonical" |>.withAttr "href" path

def canonicalPath? (a : Asset) : Option String :=
  match a.kind with
  | .canonical => a.path
  | _ => none

def seoTags (assetsPrefix : String) (seo : Seo) : List Markup.Element :=
  (seo.title.map titleTag).toList ++ seo.metaTags.map (metaTag assetsPrefix) ++
    (seo.assets.filterMap canonicalPath?).map fun path =>
      canonicalTag (prefixAssetPath assetsPrefix path)

/-- The tags for the imports that bind nothing. -/
def importTags (imports : Imports) : List Markup.Element :=
  (imports.records.values.filter (·.importKind = .sideEffect)).map fun d => importTag d.source

def headTags (d : Draft) (imports : Imports) : List Markup.Element :=
  importTags imports ++ ((d.component.seo.map (seoTags d.options.assetsPrefix)).getD [])

/-- Puts the head before the body, if it has any children. -/
def head : Plugin where
  name := "html-imports"
  run d := do
    let imports ← d.allImports
    let tags := headTags d imports
    let head : Markup.Element := { tag := "head", children := tags.map (·.toChild) }
    let document ← d.chunks.require "html-imports" .html "html-template"
    let document ← document.mapMarkup fun html =>
      if tags.isEmpty then html else html.prepend head.toChild
    pure (d.addChunks [document])

end Sitewright.Html
