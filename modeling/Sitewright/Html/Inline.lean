import Sitewright.Draft
import Sitewright.Json.Printer
import Sitewright.Style.Sheets

/-!
# Inlining components

A plain HTML page has no modules, so the markup of a shared component stands wherever a page or
another component refers to it. The names of the components being inlined are on a stack; a name
that comes up again is a fault, which is why inlining ends.
-/

namespace Sitewright.Html

/-- The value of a reference that is known when the page is made: the default of a state. -/
def staticValue? (owner : Component) (r : Ui.Reference) : Option String :=
  match r.kind with
  | .state => (owner.states.get? r.id).map fun state =>
    match state.defaultValue.value with
    | .string s => s
    | other => other.compact
  | _ => none

def urlAttributes : List String := ["src", "href"]

/-- What is known where components are inlined. -/
structure Scope where
  mapping : Mapping
  options : Options

namespace Scope

def attributeValue? (scope : Scope) (owner : Component) (key : String) (value : Ui.Value) :
    Option String :=
  let text := match value with
    | .literal s => some s
    | .dynamic r => staticValue? owner r
  text.map fun s =>
    if urlAttributes.contains key then prefixAssetPath scope.options.assetsPrefix s else s

/-- The attributes of an element, and its events after them. -/
def attributes (scope : Scope) (owner : Component) (e : Ui.Element) :
    List (String × Markup.Attr) :=
  let own := e.attrs.entries.filterMap fun (key, value) =>
    let key := scope.mapping.attributeName key
    (scope.attributeValue? owner key value).map fun s => (key, s)
  let events := e.events.entries.map fun (event, handler) =>
    (scope.mapping.eventName event, handler)
  (own ++ events).foldl (fun attrs a => Markup.setAttr a.1 (.literal a.2) attrs) []

def external? (scope : Scope) (e : Ui.Element) : Option Component :=
  scope.options.externals.get? e.kind

def styleSheetPath (scope : Scope) (c : Component) : String :=
  joinModulePath scope.options.localPrefix c.modulePath ++ ".css"

def freeNames (scope : Scope) (stack : List String) : List String :=
  (scope.options.externals.values.map (·.name)).filter (!stack.contains ·)

def selfInclusion (stack : List String) (name : String) : Fault :=
  .pluginFailed "html-template"
    (s!"component '{name}' includes itself (" ++ " -> ".intercalate (stack ++ [name]) ++ ")")

theorem mem_values_of_external? {scope : Scope} {e : Ui.Element} {c : Component}
    (h : scope.external? e = some c) : c ∈ scope.options.externals.values :=
  Table.mem_values_of_get? h

theorem freeNames_append_lt {scope : Scope} {stack : List String} {c : Component}
    (hc : c ∈ scope.options.externals.values) (hs : ¬ stack.contains c.name = true) :
    (scope.freeNames (stack ++ [c.name])).length < (scope.freeNames stack).length := by
  have hmem : c.name ∈ scope.freeNames stack :=
    List.mem_filter.2 ⟨List.mem_map_of_mem hc, by simpa using hs⟩
  have heq : scope.freeNames (stack ++ [c.name]) =
      (scope.freeNames stack).filter (fun name => !(name == c.name)) := by
    simp only [freeNames, List.filter_filter]
    apply List.filter_congr
    intro name _
    by_cases h : name = c.name <;> simp [h]
  rw [heq]
  exact List.length_filter_lt_length_iff_exists.2 ⟨c.name, hmem, by simp⟩

mutual
/-- The markup of a node of the component `owner`, and the style sheets of the components inlined
in it. -/
def expand (scope : Scope) (stack : List String) (owner : Component) :
    Ui.Node → Outcome (List Markup.Child × List String)
  | .text s => .ok ([.text s], [])
  | .dynamic r => .ok ((staticValue? owner r).toList.map .text, [])
  | .element e children =>
    match h : scope.external? e with
    | some c => scope.inline stack c (mem_values_of_external? h)
    | none => do
      let (children, sheets) ← scope.expandAll stack owner children
      pure ([.element e.kind (scope.attributes owner e) children], sheets)
termination_by node => ((scope.freeNames stack).length, sizeOf node)
decreasing_by
  · exact .right _ (by simp only [Ui.Node.element.sizeOf_spec]; omega)
  · exact .right _ (by simp only [Ui.Node.element.sizeOf_spec]; omega)

def expandAll (scope : Scope) (stack : List String) (owner : Component) :
    List Ui.Node → Outcome (List Markup.Child × List String)
  | [] => .ok ([], [])
  | node :: rest => do
    let (first, firstSheets) ← scope.expand stack owner node
    let (later, laterSheets) ← scope.expandAll stack owner rest
    pure (first ++ later, firstSheets ++ laterSheets)
termination_by nodes => ((scope.freeNames stack).length, sizeOf nodes)
decreasing_by
  · exact .right _ (by simp only [List.cons.sizeOf_spec]; omega)
  · exact .right _ (by simp only [List.cons.sizeOf_spec]; omega)

def inline (scope : Scope) (stack : List String) (c : Component)
    (_hc : c ∈ scope.options.externals.values) : Outcome (List Markup.Child × List String) :=
  if _hs : stack.contains c.name = true then .error (selfInclusion stack c.name)
  else do
    let (tree, styles) := Style.extractStyles (scope.mapping.resolveTree c.node)
    let (children, sheets) ← scope.expand (stack ++ [c.name]) c tree
    pure (children, (if styles.isEmpty then [] else [scope.styleSheetPath c]) ++ sheets)
termination_by ((scope.freeNames stack).length, 0)
decreasing_by
  exact .left _ _ (freeNames_append_lt _hc _hs)
end

end Scope

end Sitewright.Html
