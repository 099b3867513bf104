import Sitewright.Mapping.Basic
import Sitewright.Proofs.Table

/-!
# Resolving component trees

A mapping decides each element of a tree by the element's own fields, and marks the ones that it
has decided. A marked element stays as it is under any mapping, so resolving a tree a second time
changes nothing, and neither does a mapping that comes later, except for elements without a mark.
-/

namespace Sitewright

namespace Ui.Node

/-- The node at a path, whose steps count children. -/
def at? : List Nat → Node → Option Node
  | [], node => some node
  | i :: path, .element _ children => children[i]?.bind (at? path)
  | _ :: _, .text _ => none
  | _ :: _, .dynamic _ => none

/-- What no mapping decides about a node. -/
inductive Outline
  | element (name : Option String) (events style : Table String) (children : Nat)
  | text (s : String)
  | dynamic (r : Reference)

def outline : Node → Outline
  | .element e children => .element e.name e.events e.style children.length
  | .text s => .text s
  | .dynamic r => .dynamic r

theorem mapAllElements_eq_map (f : Element → Element) (nodes : List Node) :
    mapAllElements f nodes = nodes.map (mapElements f) := by
  induction nodes with
  | nil => rfl
  | cons node rest ih => rw [mapAllElements, ih, List.map_cons]

theorem mapElements_element (f : Element → Element) (e : Element) (children : List Node) :
    mapElements f (.element e children) = .element (f e) (children.map (mapElements f)) := by
  rw [mapElements, mapAllElements_eq_map]

mutual
theorem mapElements_mapElements (f g : Element → Element) :
    ∀ node : Node, (node.mapElements f).mapElements g = node.mapElements (g ∘ f)
  | .text _ => rfl
  | .dynamic _ => rfl
  | .element e children => by
    rw [mapElements, mapElements, mapElements, mapAllElements_mapAllElements f g children]
    rfl

theorem mapAllElements_mapAllElements (f g : Element → Element) : ∀ nodes : List Node,
    mapAllElements g (mapAllElements f nodes) = mapAllElements (g ∘ f) nodes
  | [] => rfl
  | node :: rest => by
    rw [mapAllElements, mapAllElements, mapAllElements, mapElements_mapElements f g node,
      mapAllElements_mapAllElements f g rest]
end

theorem at?_mapElements (f : Element → Element) (path : List Nat) (node : Node) :
    (node.mapElements f).at? path = (node.at? path).map (mapElements f) := by
  induction path generalizing node with
  | nil => rfl
  | cons i path ih =>
    cases node with
    | text s => rfl
    | dynamic r => rfl
    | element e children =>
      rw [mapElements_element, at?, at?, List.getElem?_map]
      cases children[i]? with
      | none => rfl
      | some child => exact ih child

end Ui.Node

namespace Mapping

open Ui (Element Node)

variable {m n : Mapping} {e : Element}

/-- An element that a mapping decides, or that one has decided before. -/
def Decides (m : Mapping) (e : Element) : Prop :=
  e.mappedFrom.isSome ∨ m.elements.contains e.kind ∨ e.semanticKind.isSome

/-- A mapped element has its own attributes, without the bound ones, and below them the attributes
of the mapping. -/
theorem get?_resolveAttributes (mapped attrs : Table Ui.Value) (key : String) :
    (resolveAttributes mapped attrs).get? key =
      (if key ∈ consumed mapped attrs then none else attrs.get? key).or
        ((mapped.get? key).bind (mappedValue? attrs)) := by
  have hsorted : SortedByName (attrs.entries.filter fun e => !(consumed mapped attrs).contains e.1) :=
    attrs.sorted.filter _
  have hoverlay : resolveAttributes mapped attrs =
      (Table.ofList (mapped.entries.filterMap fun e =>
        (mappedValue? attrs e.2).map fun value => (e.1, value))).overlay (Table.mk _ hsorted) := rfl
  rw [hoverlay, Table.get?_overlay, Table.get?_filter (fun k => !(consumed mapped attrs).contains k),
    Table.get?_ofList_filterMap]
  by_cases h : key ∈ consumed mapped attrs
  · simp [h]
  · simp [h]

theorem resolveElement_of_marked (h : e.mappedFrom.isSome) : m.resolveElement e = e := if_pos h

theorem resolveElement_of_not_decides (h : ¬ m.Decides e) : m.resolveElement e = e := by
  obtain ⟨hmark, hkind, hsemantic⟩ : ¬ e.mappedFrom.isSome ∧ ¬ m.elements.contains e.kind ∧
      ¬ e.semanticKind.isSome := by simpa only [Decides, not_or] using h
  rw [resolveElement, if_neg hmark, Option.not_isSome_iff_eq_none.1 hkind,
    Option.not_isSome_iff_eq_none.1 hsemantic]

/-- A mapping leaves its mark on every element that it decides. -/
theorem Decides.marked (h : m.Decides e) : (m.resolveElement e).mappedFrom.isSome := by
  by_cases hmark : e.mappedFrom.isSome
  · rwa [resolveElement_of_marked hmark]
  · rw [resolveElement, if_neg hmark]
    cases hkind : m.elements.get? e.kind with
    | some mapped => rfl
    | none =>
      obtain ⟨kind, hsemantic⟩ : ∃ kind, e.semanticKind = some kind := by
        simpa [Decides, hmark, Table.contains, hkind, Option.isSome_iff_exists] using h
      rw [hsemantic]
      rfl

theorem resolveElement_resolveElement (n : Mapping) (h : m.Decides e) :
    n.resolveElement (m.resolveElement e) = m.resolveElement e :=
  resolveElement_of_marked h.marked

theorem resolveElement_idem (m : Mapping) (e : Element) :
    m.resolveElement (m.resolveElement e) = m.resolveElement e := by
  by_cases h : m.Decides e
  · exact resolveElement_resolveElement m h
  · rw [resolveElement_of_not_decides h, resolveElement_of_not_decides h]

theorem resolveElement_keeps (m : Mapping) (e : Element) :
    (m.resolveElement e).name = e.name ∧ (m.resolveElement e).events = e.events ∧
      (m.resolveElement e).style = e.style := by
  rw [resolveElement]
  split
  · exact ⟨rfl, rfl, rfl⟩
  · split
    · exact ⟨rfl, rfl, rfl⟩
    · split
      · exact ⟨rfl, rfl, rfl⟩
      · exact ⟨rfl, rfl, rfl⟩

/-- An attribute that the mapping neither has nor binds stays as it is. -/
theorem get?_resolveElement {key : String} (h : ∀ mapped ∈ m.elements.values,
    mapped.attrs.get? key = none ∧ key ∉ mapped.attrs.values.filterMap Ui.Value.boundAttr?) :
    (m.resolveElement e).attrs.get? key = e.attrs.get? key := by
  rw [resolveElement]
  split
  · rfl
  · split
    · next mapped hmapped =>
      obtain ⟨hnone, hfree⟩ := h mapped (Table.mem_values_of_get? hmapped)
      show (if mapped.attrs.isEmpty then e.attrs
        else resolveAttributes mapped.attrs e.attrs).get? key = _
      split
      · rfl
      · have hunbound : key ∉ consumed mapped.attrs e.attrs :=
          fun hmem => hfree (List.mem_of_mem_filter hmem)
        rw [get?_resolveAttributes, if_neg hunbound, hnone, Option.bind_none, Option.or_none]
    · split
      · rfl
      · rfl

theorem resolveTree_element (m : Mapping) (e : Element) (children : List Node) :
    m.resolveTree (.element e children) =
      .element (m.resolveElement e) (children.map m.resolveTree) :=
  Node.mapElements_element _ e children

theorem at?_resolveTree (m : Mapping) (t : Node) (path : List Nat) :
    (m.resolveTree t).at? path = (t.at? path).map m.resolveTree :=
  Node.at?_mapElements _ path t

theorem outline_resolveTree (m : Mapping) (t : Node) : (m.resolveTree t).outline = t.outline := by
  cases t with
  | text s => rfl
  | dynamic r => rfl
  | element e children =>
    obtain ⟨hname, hevents, hstyle⟩ := m.resolveElement_keeps e
    rw [resolveTree_element, Node.outline, Node.outline, hname, hevents, hstyle, List.length_map]

/-- Resolving a tree twice is resolving it once; a later mapping leaves the elements alone that the
first one has decided; and nothing changes but the fields of elements that a mapping decides, each
element by its own fields. -/
theorem resolution_settles (m : Mapping) (t : Node) :
    m.resolveTree (m.resolveTree t) = m.resolveTree t ∧
    (∀ (n : Mapping) (path : List Nat) (e : Element) (children : List Node),
      t.at? path = some (.element e children) → m.Decides e →
        (n.resolveTree (m.resolveTree t)).at? path =
          some (.element (m.resolveElement e)
            (children.map fun child => n.resolveTree (m.resolveTree child)))) ∧
    (∀ (path : List Nat) (e : Element) (children : List Node),
      t.at? path = some (.element e children) →
        (m.resolveTree t).at? path =
          some (.element (m.resolveElement e) (children.map m.resolveTree))) ∧
    ∀ path : List Nat, ((m.resolveTree t).at? path).map Node.outline =
      (t.at? path).map Node.outline := by
  refine ⟨?_, fun n path e children hat hdecides => ?_, fun path e children hat => ?_,
    fun path => ?_⟩
  · have hidem : m.resolveElement ∘ m.resolveElement = m.resolveElement :=
      funext m.resolveElement_idem
    rw [resolveTree, resolveTree, Node.mapElements_mapElements, hidem]
  · rw [at?_resolveTree, at?_resolveTree, hat, Option.map_some, Option.map_some,
      resolveTree_element, resolveTree_element, resolveElement_resolveElement n hdecides,
      List.map_map]
    rfl
  · rw [at?_resolveTree, hat, Option.map_some, resolveTree_element]
  · rw [at?_resolveTree, Option.map_map]
    exact congrArg (Option.map · _) (funext m.outline_resolveTree)

def chained : Mapping where
  elements := Table.ofList [("container", { kind := "div" }), ("div", { kind := "section" })]

def block : Element := { kind := "block", semanticKind := some "container" }

def blockPage : Node := .element { kind := "container" } [.element block [.text "Welcome"]]

theorem resolution_settles_blockPage :
    chained.resolveTree (chained.resolveTree blockPage) = chained.resolveTree blockPage ∧
    chained.Decides block ∧
    ((chained.overlay { elements := Table.ofList [("container", { kind := "main" })] }).resolveTree
      (chained.resolveTree blockPage)).at? [0] =
        some (.element { kind := "container", mappedFrom := some "block" } [.text "Welcome"]) := by
  obtain ⟨hidem, hlater, -⟩ := resolution_settles chained blockPage
  have hdecides : chained.Decides block := .inr (.inr rfl)
  have hblock : chained.resolveElement block =
      { kind := "container", mappedFrom := some "block" } := by decide +kernel
  refine ⟨hidem, hdecides, ?_⟩
  rw [hlater _ [0] block [.text "Welcome"] rfl hdecides, hblock]
  rfl

end Mapping

end Sitewright
