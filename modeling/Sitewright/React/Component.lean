import Sitewright.Draft
import Sitewright.Json.Printer
import Sitewright.Mapping.Basic

/-!
# React components and the router

A component becomes a function of its properties that returns the markup of its tree. Elements that
come from a library, and references to other components, are imported. The application module maps
every route to the component of its page and mounts itself into the document.
-/

namespace Sitewright.React

def version : String := "16.8.3"

def library : Dependency := .library "react" version

/-- The chunks of import declarations, which every script follows. -/
def importChunks : List String := ["import-lib", "import-pack", "import-local"]

def scriptChunk (name : String) (body : List Script.Node) : Chunk :=
  (Chunk.ofCode name .js (.program body)).after importChunks

def attributeOf : Ui.Value → Markup.Attr
  | .literal s => .literal s
  | .dynamic r => .dynamic r.expression

/-- The attributes of an element, and its event handlers after them. -/
def attributes (mapping : Mapping) (e : Ui.Element) : List (String × Markup.Attr) :=
  let own := e.attrs.entries.map fun (key, value) => (mapping.attributeName key, attributeOf value)
  let events := e.events.entries.map fun (event, handler) =>
    (mapping.eventName event, Markup.Attr.dynamic handler)
  (own ++ events).foldl (fun attrs a => Markup.setAttr a.1 a.2 attrs) []

mutual
def markup (mapping : Mapping) : Ui.Node → Markup.Child
  | .element e children => .element e.kind (attributes mapping e) (markupAll mapping children)
  | .text s => .text s
  | .dynamic r => .expression r.expression

def markupAll (mapping : Mapping) : List Ui.Node → List Markup.Child
  | [] => []
  | node :: rest => markup mapping node :: markupAll mapping rest
end

/-- The dependency of an element. The path of a local one is below the local prefix, and is made
from the kind of the element if it is empty. -/
def dependency? (options : Options) (e : Ui.Element) : Option Dependency :=
  match e.dependency with
  | some d =>
    match d.kind with
    | .localPath =>
      let file := if d.source.isEmpty then dashCase e.kind else d.source
      some { d with source := joinModulePath options.localPrefix file }
    | _ => some d
  | none => (options.externals.get? e.kind).map fun c =>
    Dependency.localPath (joinModulePath options.localPrefix c.modulePath)

def imports (options : Options) (node : Ui.Node) : List (String × Dependency) :=
  node.elements.filterMap fun e => (dependency? options e).map fun d => (e.kind, d)

def stateLine (name : String) (state : StateDefinition) : Script.Node :=
  .statement ("const [" ++ name ++ ", set" ++ upperCamelCase name ++ "] = useState(" ++
    state.defaultValue.value.compact ++ ")")

/-- The declarations of the states, and an empty line after them. -/
def stateLines (c : Component) : List Script.Node :=
  if c.states.isEmpty then []
  else c.states.entries.map (fun e => stateLine e.1 e.2) ++ [.statement ""]

def libraryImports (c : Component) : List (String × Dependency) :=
  ("React", library) :: if c.states.isEmpty then [] else [("useState", library.named)]

def moduleBody (c : Component) (root : Markup.Element) : List Script.Node :=
  [.function c.className ["props"] (stateLines c ++ [.returning (.markup root)]) .none,
    .statement "", .exportDefault c.className]

def component : Plugin where
  name := "jsx-component"
  run d :=
    match (markup d.mapping d.component.node).element? with
    | none =>
      .error (.pluginFailed "jsx-component" s!"component '{d.component.name}' has no root element")
    | some root => do
      let d ← d.importAll (imports d.options d.component.node ++ libraryImports d.component)
      pure (d.addChunks [scriptChunk "jsx-component" (moduleBody d.component root)])

def routerLibrary : Dependency := .library "react-router-dom" Mapping.routerVersion

def routerImports : List (String × Dependency) :=
  [("React", library), ("ReactDOM", .library "react-dom" version),
    ("Router", { routerLibrary.named with exportedName := some "BrowserRouter" }),
    ("Route", routerLibrary.named)]

/-- The element of a route. The root address has to match exactly. -/
def routeTag (r : Route) : Markup.Element :=
  let tag : Markup.Element := { tag := "Route" }
  let tag := if r.navLink = "/" then tag.withFlag "exact" else tag
  (tag.withAttr "path" r.navLink).set "component" (.dynamic r.componentName)

def application (routes : List Route) : List Script.Node :=
  let switch : Markup.Element := { tag := "div", children := routes.map (routeTag · |>.toChild) }
  [.function "App" []
      [.returning (.markup { tag := "Router", children := [switch.toChild] })] .none,
    .statement "", .statement "ReactDOM.render(<App />, document.getElementById('app'))"]

def router : Plugin where
  name := "router"
  run d := do
    if d.options.routes.isEmpty then
      .error (.pluginFailed "router" "the project defines no routes")
    let pages := d.options.routes.map fun r => (r.componentName, Dependency.localPath r.modulePath)
    let d ← d.importAll (routerImports ++ pages ++ d.options.globalStyleSheet?.toList)
    pure (d.addChunks [scriptChunk "router" (application d.options.routes)])

end Sitewright.React
