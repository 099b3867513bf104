import Sitewright.Proofs.Script.Literals

/-!
# Quoted texts in a script

Wherever a script quotes a text, what stands around the literal does not depend on the text. A
string in an expression is escaped, but for line breaks; the source of an import is written as it
is.
-/

namespace Sitewright.Script

open Markup (indentation)

/-! ### What stands around a part of a text -/

/-- A function that puts the same around every text. -/
def Surrounds (f : String → String) : Prop := ∃ before after, ∀ t, f t = before ++ t ++ after

theorem Surrounds.id : Surrounds fun t => t := ⟨"", "", fun t => by simp⟩

theorem Surrounds.comp {f g : String → String} (hf : Surrounds f) (hg : Surrounds g) :
    Surrounds fun t => f (g t) := by
  obtain ⟨before, after, hf⟩ := hf
  obtain ⟨before', after', hg⟩ := hg
  exact ⟨before ++ before', after' ++ after, fun t => by simp [hf, hg, String.append_assoc]⟩

theorem surrounds_append (before after : String) : Surrounds fun t => before ++ t ++ after :=
  ⟨before, after, fun _ => rfl⟩

theorem surrounds_intercalate (sep : String) (xs ys : List String) :
    Surrounds fun t => sep.intercalate (xs ++ t :: ys) := by
  have hrest : ∃ after, ∀ t, sep.intercalate (t :: ys) = t ++ after := by
    cases ys with
    | nil => exact ⟨"", fun t => by simp⟩
    | cons y ys =>
      refine ⟨sep ++ sep.intercalate (y :: ys), fun t => ?_⟩
      rw [String.intercalate_cons_of_ne_nil (List.cons_ne_nil y ys), String.append_assoc]
  obtain ⟨after, hrest⟩ := hrest
  by_cases hxs : xs = []
  · subst hxs
    exact ⟨"", after, fun t => by simp [hrest]⟩
  · refine ⟨sep.intercalate xs ++ sep, after, fun t => ?_⟩
    beta_reduce
    rw [String.intercalate_append_of_ne_nil hxs (List.cons_ne_nil t ys), hrest,
      String.append_assoc, String.append_assoc, String.append_assoc]

/-- What stands around the innermost of several layers, if each layer puts the same around whatever
is in it. -/
theorem exists_surrounding {α β : Type} {fill : α → β → β} {write : Nat → β → String}
    (hfill : ∀ layer depth, ∃ f inner, Surrounds f ∧
      ∀ b, write depth (fill layer b) = f (write inner b)) (layers : List α) (depth : Nat) :
    ∃ f inner, Surrounds f ∧ ∀ b, write depth (layers.foldr fill b) = f (write inner b) := by
  induction layers generalizing depth with
  | nil => exact ⟨_, depth, .id, fun _ => rfl⟩
  | cons layer layers ih =>
    obtain ⟨f, inner, hf, houter⟩ := hfill layer depth
    obtain ⟨g, innermost, hg, hinner⟩ := ih inner
    exact ⟨_, innermost, hf.comp hg, fun b => (houter _).trans (congrArg f (hinner b))⟩

/-! ### Expressions -/

inductive Around
  | item (before after : List Expr)
  | field (before : List (String × Expr)) (key : String) (after : List (String × Expr))

def Around.fill : Around → Expr → Expr
  | .item before after, e => .array (before ++ e :: after)
  | .field before key after, e => .object (before ++ (key, e) :: after)

def fillAll (around : List Around) (e : Expr) : Expr := around.foldr Around.fill e

theorem texts_append (depth : Nat) (xs ys : List Expr) :
    Expr.texts depth (xs ++ ys) = Expr.texts depth xs ++ Expr.texts depth ys := by
  induction xs with
  | nil => rw [Expr.texts, List.nil_append, List.nil_append]
  | cons e xs ih => rw [List.cons_append, Expr.texts, Expr.texts, ih, List.cons_append]

theorem fieldLines_append (depth : Nat) (xs ys : List (String × Expr)) :
    Expr.fieldLines depth (xs ++ ys) = Expr.fieldLines depth xs ++ Expr.fieldLines depth ys := by
  induction xs with
  | nil => simp [Expr.fieldLines]
  | cons field xs ih =>
    obtain ⟨key, value⟩ := field
    simp only [List.cons_append, Expr.fieldLines, ih, String.append_assoc]

theorem text_object {fields : List (String × Expr)} (h : fields ≠ []) (depth : Nat) :
    (Expr.object fields).text depth =
      "\x7b\n" ++ Expr.fieldLines (depth + 1) fields ++ indentation depth ++ "\x7d" := by
  rw [Expr.text]
  exact h

theorem Around.exists_text (around : Around) (depth : Nat) : ∃ f inner, Surrounds f ∧
    ∀ e : Expr, (around.fill e).text depth = f (e.text inner) := by
  cases around with
  | item before after =>
    have hitems := surrounds_intercalate ", " (Expr.texts depth before) (Expr.texts depth after)
    refine ⟨_, depth, (surrounds_append "[" "]").comp hitems, fun e => ?_⟩
    rw [Around.fill, Expr.text, texts_append, Expr.texts]
  | field before key after =>
    refine ⟨_, depth + 1, surrounds_append
      ("\x7b\n" ++ Expr.fieldLines (depth + 1) before ++ indentation (depth + 1) ++ key ++ ": ")
      (",\n" ++ Expr.fieldLines (depth + 1) after ++ indentation depth ++ "\x7d"), fun e => ?_⟩
    rw [Around.fill, text_object (by simp), fieldLines_append, Expr.fieldLines]
    simp only [String.append_assoc]

/-! ### Statements -/

inductive StatementAround
  | program (before after : List Node)
  | function (name : String) (params : List String) (before after : List Node) (exported : Export)

def StatementAround.fill : StatementAround → Node → Node
  | .program before after, node => .program (before ++ node :: after)
  | .function name params before after exported, node =>
    .function name params (before ++ node :: after) exported

def nested (around : List StatementAround) (node : Node) : Node :=
  around.foldr StatementAround.fill node

theorem writeAll_append (depth : Nat) (xs ys : List Node) :
    Node.writeAll depth (xs ++ ys) = Node.writeAll depth xs ++ Node.writeAll depth ys := by
  induction xs with
  | nil => simp [Node.writeAll]
  | cons node xs ih => simp only [List.cons_append, Node.writeAll, ih, String.append_assoc]

theorem StatementAround.exists_write (around : StatementAround) (depth : Nat) :
    ∃ f inner, Surrounds f ∧
      ∀ node : Node, (around.fill node).write depth = f (node.write inner) := by
  cases around with
  | program before after =>
    refine ⟨_, depth, surrounds_append (Node.writeAll depth before) (Node.writeAll depth after),
      fun node => ?_⟩
    rw [StatementAround.fill, Node.write, writeAll_append, Node.writeAll, String.append_assoc]
  | function name params before after exported =>
    refine ⟨_, depth + 1, surrounds_append
      (indentation depth ++ exported.text ++ "const " ++ name ++ " = (" ++
        ", ".intercalate params ++ ") => \x7b\n" ++ Node.writeAll (depth + 1) before)
      (Node.writeAll (depth + 1) after ++ indentation depth ++ "\x7d\n"), fun node => ?_⟩
    rw [StatementAround.fill, Node.write, writeAll_append, Node.writeAll]
    simp only [String.append_assoc]

/-! ### Literals -/

/-- Where a statement quotes a text. -/
inductive Place
  | constant (name : String) (around : List Around) (exported : Export)
  | returned (around : List Around)
  | source (clause : ImportClause)

def Place.node : Place → String → Node
  | .constant name around exported, v => .constant name (fillAll around (.string v)) exported
  | .returned around, v => .returning (fillAll around (.string v))
  | .source clause, v => .importing v clause

def Place.literal : Place → String → String
  | .constant _ _ _, v | .returned _, v => quoted v
  | .source _, v => "'" ++ v ++ "'"

/-- The texts that a literal there stands for. -/
def Place.Represents : Place → List Char → Prop
  | .constant _ _ _, s | .returned _, s => '\n' ∉ s ∧ '\r' ∉ s
  | .source _, s => ∀ c ∈ s, c ∉ marks

theorem write_returning {value : Expr} (h : ∀ e, value ≠ .markup e) (depth : Nat) :
    (Node.returning value).write depth =
      indentation depth ++ "return " ++ value.text depth ++ "\n" := by
  cases value with
  | markup e => exact absurd rfl (h e)
  | _ => rw [Node.write]; simp

theorem fillAll_string_ne_markup (around : List Around) (v : String) (e : Markup.Element) :
    fillAll around (.string v) ≠ .markup e := by
  cases around with
  | nil => simp [fillAll]
  | cons a around => cases a <;> simp [fillAll, Around.fill]

theorem Place.exists_write (place : Place) (depth : Nat) : ∃ f, Surrounds f ∧
    ∀ v, (place.node v).write depth = f (place.literal v) := by
  cases place with
  | constant name around exported =>
    obtain ⟨f, inner, hf, htext⟩ := exists_surrounding Around.exists_text around depth
    refine ⟨_, (surrounds_append (indentation depth ++ exported.text ++ "const " ++ name ++ " = ")
      "\n").comp hf, fun v => ?_⟩
    rw [Place.node, Node.write, fillAll, htext, Expr.text]
    rfl
  | returned around =>
    obtain ⟨f, inner, hf, htext⟩ := exists_surrounding Around.exists_text around depth
    refine ⟨_, (surrounds_append (indentation depth ++ "return ") "\n").comp hf, fun v => ?_⟩
    rw [Place.node, write_returning (fillAll_string_ne_markup around v), fillAll, htext,
      Expr.text]
    rfl
  | source clause =>
    by_cases hclause : clause.isSideEffect
    · refine ⟨_, surrounds_append (indentation depth ++ "import ") "\n", fun v => ?_⟩
      rw [Place.node, Node.write, importText, if_pos hclause, Place.literal]
      simp [← String.toList_inj]
    · refine ⟨_, surrounds_append
        (indentation depth ++ "import " ++ ", ".intercalate clause.bindings ++ " from ") "\n",
        fun v => ?_⟩
      rw [Place.node, Node.write, importText, if_neg hclause, Place.literal]
      simp [← String.toList_inj]

theorem Place.exists_literal (place : Place) (v : String) : ∃ body,
    (place.literal v).toList = '\'' :: (body ++ ['\'']) ∧
      ∀ rest, readUnits? (body ++ '\'' :: rest) = some (units v.toList, rest) ↔
        place.Represents v.toList := by
  cases place with
  | constant name around exported =>
    exact ⟨_, String.toList_ofList, fun _ => readUnits?_escaped_eq_iff⟩
  | returned around => exact ⟨_, String.toList_ofList, fun _ => readUnits?_escaped_eq_iff⟩
  | source clause => exact ⟨v.toList, by simp [Place.literal], fun _ => readUnits?_eq_self_iff⟩

theorem trimEnd_literal {before literal after : String} {body : List Char}
    (h : literal.toList = '\'' :: (body ++ ['\''])) :
    trimEnd (before ++ literal ++ after) = before ++ literal ++ trimEnd after := by
  have hlast : dropEndWhile isBlank (before ++ literal).toList = (before ++ literal).toList := by
    rw [String.toList_append, h, ← List.cons_append, ← List.append_assoc,
      dropEndWhile_concat_of_neg (by decide)]
  refine String.toList_injective ?_
  rw [trimEnd, String.toList_ofList, String.toList_append, dropEndWhile_append hlast]
  simp [trimEnd]

/-- Wherever a text is quoted in a script, its literal stands between what does not depend on the
text, and is read as the text, up to its closing quote, exactly if the text is one of those that the
place represents. -/
theorem text_nested_literal (place : Place) (around : List StatementAround) :
    ∃ before after : String, ∀ v : String,
      (nested around (place.node v)).text = before ++ place.literal v ++ after ∧
      (readLiteral? (place.literal v ++ after).toList = some (units v.toList, after.toList) ↔
        place.Represents v.toList) := by
  obtain ⟨f, inner, hf, hnested⟩ := exists_surrounding StatementAround.exists_write around 0
  obtain ⟨g, hg, hplace⟩ := place.exists_write inner
  obtain ⟨before, after, hsurrounds⟩ : ∃ before after, ∀ t, f (g t) = before ++ t ++ after :=
    hf.comp hg
  refine ⟨before, trimEnd after, fun v => ?_⟩
  obtain ⟨body, hliteral, hreads⟩ := place.exists_literal v
  constructor
  · rw [Node.text, nested, hnested, hplace, hsurrounds, trimEnd_literal hliteral]
  · rw [String.toList_append, hliteral]
    simpa [readLiteral?] using hreads (trimEnd after).toList

/-- A line break in a string, and a quote in the source of an import, are written as they are. -/
theorem text_literal_broken :
    (Node.constant "text" (.string "one\ntwo") .none).text = "const text = 'one\ntwo'" ∧
    readLiteral? "'one\ntwo'".toList = none ∧
    (Node.importing "./it's.css" {}).text = "import './it's.css'" ∧
    readLiteral? "'./it's.css'".toList = some (units "./it".toList, "s.css'".toList) := by
  refine ⟨by rfl, ?_, by rfl, ?_⟩
  · have hplain : ∀ c ∈ "one".toList, c ∉ marks := by simp [marks]
    have hread := readUnits?_append (t := '\n' :: "two'".toList) hplain
    rw [readUnits?_break (.inl rfl)] at hread
    exact hread
  · have hplain : ∀ c ∈ "./it".toList, c ∉ marks := by simp [marks]
    exact readUnits?_eq_self_iff.2 hplain

end Sitewright.Script
