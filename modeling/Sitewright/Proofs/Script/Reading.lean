import Sitewright.Proofs.Json.Records
import Sitewright.Script.Codec

/-!
# Reading markup and scripts back

What is encoded of markup trees and scripts decodes to the same.
-/

namespace Sitewright

open Json

namespace Markup

theorem Attr.decodes (a : Attr) (form : Form) : Decodes (Attr.ofJson? form) a.toJson a := by
  cases a with
  | literal value =>
    exact .tagged form (fun _ => .string value) (by simp) rfl (by simp +contextual [ofJson?])
  | dynamic value =>
    exact .tagged form (fun _ => .string value) (by simp) rfl (by simp +contextual [ofJson?])
  | flag => exact .untagged form "value" (by simp) rfl (by simp +contextual [ofJson?, noContent])

/-- An element as it is encoded, given its children in JSON. -/
theorem elementWith?_decodes {child? : Form → Json → Option Child} {form : Form} (e : Element)
    {items : List Json} (h : List.Forall₂ (Decodes (child? form)) items e.children) :
    Decodes (elementWith? child? form) (.object [("tag", .string e.tag),
      ("attrs", attrsToJson e.attrs), ("children", .array items)]) e :=
  .record form
    [.required "tag" (.string e.tag),
      .defaulted "attrs" [] (.list e.attrs fun a _ => .pair (.string a.1) (a.2.decodes form)),
      .defaulted "children" [] (.array h)]
    (by simp) rfl (by simp +contextual [elementWith?, attrs?])

theorem depth_children_lt (e : Element) :
    (Json.array (childrenToJson e.children)).depth < e.toJson.depth :=
  depth_lt_of_mem "children" (by simp)

mutual
theorem Child.decodes_within : ∀ (c : Child) {depth : Nat}, c.toJson.depth ≤ depth →
    ∀ form, Decodes (childWithin? depth form) c.toJson c
  | .element tag attrs children, depth + 1, h, form => by
    have hchildren : itemsDepth (childrenToJson children) < depth :=
      itemsDepth_lt ((depth_children_lt ⟨tag, attrs, children⟩).trans
        (depth_lt_of_mem "value" (by simp [Element.toJson]))) h
    exact .tagged form (fun form => elementWith?_decodes ⟨tag, attrs, children⟩
        (Child.all_decode_within children hchildren.le form))
      (by simp) rfl (by simp +contextual [childWithin?, Element.toChild])
  | .text s, depth + 1, _, form =>
    .tagged form (fun _ => .string s) (by simp) rfl (by simp +contextual [childWithin?])
  | .raw s, depth + 1, _, form =>
    .tagged form (fun _ => .string s) (by simp) rfl (by simp +contextual [childWithin?])
  | .expression s, depth + 1, _, form =>
    .tagged form (fun _ => .string s) (by simp) rfl (by simp +contextual [childWithin?])

theorem Child.all_decode_within : ∀ (children : List Child) {depth : Nat},
    itemsDepth (childrenToJson children) ≤ depth →
      ∀ form, List.Forall₂ (Decodes (childWithin? depth form)) (childrenToJson children) children
  | [], _, _, _ => .nil
  | c :: rest, _, h, form =>
    .cons (c.decodes_within ((le_max_left _ _).trans h) form)
      (Child.all_decode_within rest ((le_max_right _ _).trans h) form)
end

theorem Element.decodes (e : Element) : Decodes Element.ofJson? e.toJson e :=
  .atDepth (f := fun depth => elementWith? (childWithin? depth) .plain)
    (elementWith?_decodes e (Child.all_decode_within e.children
      ((Nat.le_succ _).trans (depth_children_lt e).le) .plain))

end Markup

namespace Script

theorem NamedImport.decodes (n : NamedImport) : Decodes NamedImport.ofJson? n.toJson n :=
  .record .plain [.required "imported" (.string n.imported), .required "local" (.string n.binding)]
    (by simp) rfl (by simp +contextual [ofJson?, Json.record?])

theorem ImportClause.decodes (c : ImportClause) : Decodes ImportClause.ofJson? c.toJson c :=
  .record .plain
    [.nullable "default" c.default rfl fun s _ => .string s,
      .nullable "namespace" c.namespaceName rfl fun s _ => .string s,
      .required "named" (.list c.named fun n _ => n.decodes)]
    (by simp) rfl (by simp +contextual [ofJson?, Json.record?])

theorem Export.decodes (e : Export) : Decodes Export.ofJson? e.toJson e := by
  cases e with
  | none => exact .ofString rfl
  | named => exact .ofString rfl
  | default => exact .ofString rfl

mutual
theorem Expr.decodes_within : ∀ (e : Expr) {depth : Nat}, e.toJson.depth < depth →
    Decodes (Expr.within? depth) e.toJson e
  | .identifier name, depth + 1, _ =>
    .variant (.string name) rfl (by simp +contextual [Expr.within?])
  | .string value, depth + 1, _ =>
    .variant (.string value) rfl (by simp +contextual [Expr.within?])
  | .raw text, depth + 1, _ => .variant (.string text) rfl (by simp +contextual [Expr.within?])
  | .markup e, depth + 1, _ => .variant e.decodes rfl (by simp +contextual [Expr.within?])
  | .object fields, depth + 1, h => by
    have hfields : itemsDepth (Expr.fieldsToJson fields) < depth :=
      itemsDepth_lt (depth_lt_of_mem "Object" (by simp)) h.le
    exact .variant (.array (Expr.fields_decode_within fields hfields)) rfl
      (by simp +contextual [Expr.within?])
  | .array items, depth + 1, h => by
    have hitems : itemsDepth (Expr.itemsToJson items) < depth :=
      itemsDepth_lt (depth_lt_of_mem "Array" (by simp)) h.le
    exact .variant (.array (Expr.items_decode_within items hitems)) rfl
      (by simp +contextual [Expr.within?])
  | .null, depth + 1, _ => .ofString rfl

theorem Expr.items_decode_within : ∀ (items : List Expr) {depth : Nat},
    itemsDepth (Expr.itemsToJson items) < depth →
      List.Forall₂ (Decodes (Expr.within? depth)) (Expr.itemsToJson items) items
  | [], _, _ => .nil
  | e :: rest, _, h =>
    .cons (e.decodes_within ((le_max_left _ _).trans_lt h))
      (Expr.items_decode_within rest ((le_max_right _ _).trans_lt h))

theorem Expr.fields_decode_within : ∀ (fields : List (String × Expr)) {depth : Nat},
    itemsDepth (Expr.fieldsToJson fields) < depth →
      List.Forall₂ (Decodes (pair? string? (Expr.within? depth))) (Expr.fieldsToJson fields) fields
  | [], _, _ => .nil
  | (key, e) :: rest, depth, h => by
    have hvalue : e.toJson.depth ≤ itemsDepth [.string key, e.toJson] :=
      depth_le_itemsDepth (by simp)
    have hfield : itemsDepth [.string key, e.toJson] + 1 < depth := (le_max_left _ _).trans_lt h
    exact .cons (.pair (.string key) (e.decodes_within (by omega)))
      (Expr.fields_decode_within rest ((le_max_right _ _).trans_lt h))
end

theorem Expr.decodes (e : Expr) : Decodes Expr.ofJson? e.toJson e :=
  .atDepth (f := fun depth => within? (depth + 1)) (e.decodes_within (Nat.lt_succ_self _))

theorem importing_decodes (source : String) (clause : ImportClause) :
    Decodes importing? (.object [("source", .string source), ("clause", clause.toJson)])
      (.importing source clause) :=
  .record .plain [.required "source" (.string source), .required "clause" clause.decodes]
    (by simp) rfl (by simp +contextual [importing?, object?, Json.record?])

theorem constant_decodes (name : String) (value : Expr) (exported : Export) :
    Decodes constant? (.object [("name", .string name), ("value", value.toJson),
      ("export", exported.toJson)]) (.constant name value exported) :=
  .record .plain
    [.required "name" (.string name), .required "value" value.decodes,
      .required "export" exported.decodes]
    (by simp) rfl (by simp +contextual [constant?, object?, Json.record?])

theorem function_decodes {node? : Json → Option Node} (name : String) (params : List String)
    {items : List Json} {body : List Node} (exported : Export)
    (h : List.Forall₂ (Decodes node?) items body) :
    Decodes (functionWith? node?) (.object [("name", .string name), ("params", ofStrings params),
      ("body", .array items), ("export", exported.toJson)])
      (.function name params body exported) :=
  .record .plain
    [.required "name" (.string name), .required "params" (.strings params),
      .required "body" (.array h), .required "export" exported.decodes]
    (by simp) rfl (by simp +contextual [functionWith?, object?, Json.record?])

theorem Node.depth_body_lt (name : String) (params : List String) (body : List Node)
    (exported : Export) : (Json.array (Node.bodyToJson body)).depth <
      (Node.function name params body exported).toJson.depth := by
  have hcontent : (Json.array (Node.bodyToJson body)).depth < (Json.object
      [("name", .string name), ("params", ofStrings params),
        ("body", .array (Node.bodyToJson body)), ("export", exported.toJson)]).depth :=
    depth_lt_of_mem "body" (by simp)
  exact hcontent.trans (depth_lt_of_mem "Function" (by simp))

mutual
theorem Node.decodes_within : ∀ (node : Node) {depth : Nat}, node.toJson.depth < depth →
    Decodes (Node.within? depth) node.toJson node
  | .program body, depth + 1, h => by
    have hbody : itemsDepth (Node.bodyToJson body) < depth :=
      itemsDepth_lt (depth_lt_of_mem "Program" (by simp)) h.le
    exact .variant (.array (Node.all_decode_within body hbody)) rfl
      (by simp +contextual [Node.within?])
  | .importing source clause, depth + 1, _ =>
    .variant (importing_decodes source clause) rfl (by simp +contextual [Node.within?])
  | .constant name value exported, depth + 1, _ =>
    .variant (constant_decodes name value exported) rfl (by simp +contextual [Node.within?])
  | .function name params body exported, depth + 1, h => by
    have hbody : itemsDepth (Node.bodyToJson body) < depth :=
      itemsDepth_lt (Node.depth_body_lt name params body exported) h.le
    exact .variant (function_decodes name params exported (Node.all_decode_within body hbody)) rfl
      (by simp +contextual [Node.within?])
  | .returning value, depth + 1, _ =>
    .variant value.decodes rfl (by simp +contextual [Node.within?])
  | .exportDefault name, depth + 1, _ =>
    .variant (.string name) rfl (by simp +contextual [Node.within?])
  | .statement text, depth + 1, _ =>
    .variant (.string text) rfl (by simp +contextual [Node.within?])
  | .comment text, depth + 1, _ =>
    .variant (.string text) rfl (by simp +contextual [Node.within?])

theorem Node.all_decode_within : ∀ (body : List Node) {depth : Nat},
    itemsDepth (Node.bodyToJson body) < depth →
      List.Forall₂ (Decodes (Node.within? depth)) (Node.bodyToJson body) body
  | [], _, _ => .nil
  | node :: rest, _, h =>
    .cons (node.decodes_within ((le_max_left _ _).trans_lt h))
      (Node.all_decode_within rest ((le_max_right _ _).trans_lt h))
end

theorem Node.decodes (node : Node) : Decodes Node.ofJson? node.toJson node :=
  .atDepth (f := fun depth => within? (depth + 1)) (node.decodes_within (Nat.lt_succ_self _))

end Script

end Sitewright
