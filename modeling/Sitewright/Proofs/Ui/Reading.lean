import Sitewright.Proofs.Json.Records
import Sitewright.Ui.Codec

/-!
# Reading component trees back

What is encoded of dependencies and component trees decodes to the same in every form.
-/

namespace Sitewright

open Json

theorem DependencyKind.decodes (k : DependencyKind) (form : Form) :
    Decodes (DependencyKind.ofJson? form) (.string k.name) k :=
  .ofString (by cases k <;> rfl)

theorem ImportKind.decodes (k : ImportKind) (form : Form) :
    Decodes (ImportKind.ofJson? form) (.string k.name) k :=
  .ofString (by cases k <;> rfl)

theorem Dependency.decodes (d : Dependency) (form : Form) :
    Decodes (Dependency.ofJson? form) d.toJson d :=
  .record form
    [.required "type" (d.kind.decodes form),
      { Field.required "source" (.string d.source) with aliases := ["path"] },
      .omitted "version" d.version rfl fun s _ => .string s,
      .defaulted "import" .default (d.importKind.decodes form),
      .omitted "original_name" d.exportedName rfl fun s _ => .string s]
    (by simp) (by simp [toJson]) (by simp +contextual [ofJson?])

namespace Ui

theorem ReferenceKind.decodes (k : ReferenceKind) (form : Form) :
    Decodes (ReferenceKind.ofJson? form) (.string k.name) k :=
  .ofString (by cases k <;> rfl)

theorem Reference.decodes (r : Reference) (form : Form) :
    Decodes (Reference.ofJson? form) r.toJson r :=
  .record form [.required "referenceType" (r.kind.decodes form), .required "id" (.string r.id)]
    (by simp) (by simp [toJson]) (by simp +contextual [ofJson?])

theorem Value.decodes (v : Value) (form : Form) : Decodes (Value.ofJson? form) v.toJson v := by
  cases v with
  | literal s =>
    exact .tagged form (fun _ => .string s) (by simp) rfl (by simp +contextual [ofJson?])
  | dynamic r =>
    exact .tagged form r.decodes (by simp) rfl (by simp +contextual [ofJson?])

-- in name order the content comes before the name of the case
example : Value.ofJson? .plain (.object [("content", .string "x"), ("type", .string "static")]) =
    some (.literal "x") := rfl

theorem Element.decodes {node? : Form → Json → Option Node} {form : Form} (e : Element)
    {items : List Json} {children : List Node}
    (h : List.Forall₂ (Decodes (node? form)) items children) :
    Decodes (elementWith? node? form) (e.toJson items) (e, children) :=
  .record form
    [.required "elementType" (.string e.kind),
      .omitted "semanticType" e.semanticKind rfl fun s _ => .string s,
      .omitted "name" e.name rfl fun s _ => .string s,
      .defaulted "attrs" ∅ (.table e.attrs fun v _ => v.2.decodes form),
      .defaulted "events" ∅ (.stringTable e.events),
      .defaulted "style" ∅ (.stringTable e.style),
      .defaulted "children" [] (.array h),
      .omitted "dependency" e.dependency rfl fun d _ => d.decodes form,
      .omitted "mappedFrom" e.mappedFrom rfl fun s _ => .string s]
    (by simp) (by simp [toJson]) (by simp +contextual [elementWith?])

theorem Element.depth_lt (e : Element) (items : List Json) :
    (Json.array items).depth < (tagged "element" (e.toJson items)).depth := by
  have hchildren : (Json.array items).depth < (e.toJson items).depth :=
    depth_lt_of_mem "children" (by simp)
  exact hchildren.trans (depth_lt_of_mem "content" (by simp))

mutual
theorem Node.decodes_within : ∀ (node : Node) {depth : Nat}, node.toJson.depth ≤ depth →
    ∀ form, Decodes (Node.within? depth form) node.toJson node
  | .element e children, depth + 1, h, form => by
    have hchildren : itemsDepth (Node.allToJson children) < depth :=
      itemsDepth_lt (e.depth_lt (Node.allToJson children)) h
    exact .tagged form (fun form => e.decodes (Node.all_decode_within children hchildren.le form))
      (by simp) rfl (by simp +contextual [within?])
  | .text s, depth + 1, _, form =>
    .tagged form (fun _ => .string s) (by simp) rfl (by simp +contextual [within?])
  | .dynamic r, depth + 1, _, form =>
    .tagged form r.decodes (by simp) rfl (by simp +contextual [within?])

theorem Node.all_decode_within : ∀ (nodes : List Node) {depth : Nat},
    itemsDepth (Node.allToJson nodes) ≤ depth →
      ∀ form, List.Forall₂ (Decodes (Node.within? depth form)) (Node.allToJson nodes) nodes
  | [], _, _, _ => .nil
  | node :: rest, _, h, form =>
    .cons (node.decodes_within ((le_max_left _ _).trans h) form)
      (Node.all_decode_within rest ((le_max_right _ _).trans h) form)
end

theorem Node.decodes (node : Node) (form : Form) : Decodes (Node.ofJson? form) node.toJson node :=
  .atDepth (f := fun depth => within? depth form) (node.decodes_within le_rfl form)

end Ui

end Sitewright
