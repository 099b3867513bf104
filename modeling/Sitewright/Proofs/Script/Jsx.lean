import Mathlib.Data.Nat.Basic
import Mathlib.Order.Basic
import Mathlib.Tactic.SplitIfs
import Sitewright.Proofs.Markup.Faithful
import Sitewright.Proofs.Text.Segments
import Sitewright.Script.Printer

/-!
# What markup in a script stands for

Of the characters of a value only the double quote is written as a character reference; an
ampersand is written as it is. So the text of a regular element determines the element up to double
quotes and the references that stand for them, and a value is read back as it was exactly if there
is no character reference in it.
-/

namespace Sitewright.Script

open Markup (Attr Child Element IsName IsRegular isName_of_chars)

/-! ### How elements are spelled -/

theorem isPrefixCode_escapedInJsx : IsPrefixCode escapedInJsx where
  ne_nil c := by
    simp only [escapedInJsx, Markup.escapedInText]
    split_ifs <;> simp
  inj {a b x y} h := by
    simp only [escapedInJsx, Markup.escapedInText] at h
    split_ifs at h <;> simp_all [eq_comm]

theorem lt_notMem_escapedInJsx (c : Char) : '<' ∉ escapedInJsx c := by
  simp only [escapedInJsx, Markup.escapedInText]
  split_ifs with hopen hclose hand hlt hgt
  · decide
  · decide
  · decide
  · decide
  · decide
  · simpa using Ne.symm hlt

def spelledInValue (c : Char) : List Char := if c = '"' then "&quot;".toList else [c]

theorem quote_notMem_spelledInValue (c : Char) : '"' ∉ spelledInValue c := by
  rw [spelledInValue]
  split_ifs with hquote
  · decide
  · simpa using Ne.symm hquote

theorem quote_notMem_replaceChar (v : String) : '"' ∉ (replaceChar '"' "&quot;" v).toList := by
  rw [replaceChar, String.toList_ofList, List.mem_flatMap]
  rintro ⟨c, -, hc⟩
  exact quote_notMem_spelledInValue c hc

def jsxSpelling : jsx.Spelling [] [] where
  value := replaceChar '"' "&quot;"
  text s := String.ofList (s.toList.flatMap escapedInJsx)
  attrText_literal _ _ := rfl
  attrText_flag _ := rfl
  quote_notMem_value := quote_notMem_replaceChar
  textIn_eq _ _ := rfl
  text_injective := isPrefixCode_escapedInJsx.ofList_flatMap_injective
  text_empty := rfl
  lt_notMem_text s := by simp [lt_notMem_escapedInJsx]
  ending_nil h := .inr (Option.some.inj h).symm
  ending_none _ hne := if_neg (by simpa using hne)

theorem toList_value (v : String) :
    (jsxSpelling.value v).toList = v.toList.flatMap spelledInValue :=
  String.toList_ofList

theorem write_mapLiterals_value (c : Child) (depth : Nat) (parent : String) :
    jsx.write depth parent (c.mapLiterals jsxSpelling.value) = jsx.write depth parent c := by
  refine Markup.Dialect.write_mapLiterals (fun key a => ?_) (fun tag cs => ?_) c depth parent
  · cases a with
    | literal v =>
      rw [Attr.mapLiteral, jsxSpelling.attrText_literal, jsxSpelling.attrText_literal]
      -- a value that is spelled has no quote any more
      have htwice : jsxSpelling.value (jsxSpelling.value v) = jsxSpelling.value v :=
        replaceChar_of_notMem (quote_notMem_replaceChar v)
      rw [htwice]
    | dynamic expression => rfl
    | flag => rfl
  · simp [jsx]

theorem write_eq_iff {c c' : Child} (h : IsRegular [] [] c) (h' : IsRegular [] [] c')
    (depth : Nat) : jsx.write depth "" c = jsx.write depth "" c' ↔
      c.mapLiterals jsxSpelling.value = c'.mapLiterals jsxSpelling.value := by
  refine ⟨jsxSpelling.mapLiterals_eq_of_write_eq h h', fun hsame => ?_⟩
  rw [← write_mapLiterals_value c, hsame, write_mapLiterals_value c']

theorem text_markup_eq_iff {e e' : Element} (h : IsRegular [] [] e.toChild)
    (h' : IsRegular [] [] e'.toChild) (depth : Nat) :
    (Expr.markup e).text depth = (Expr.markup e').text depth ↔
      e.toChild.mapLiterals jsxSpelling.value = e'.toChild.mapLiterals jsxSpelling.value := by
  rw [← write_eq_iff h h' depth, Expr.text, Expr.text]
  exact ⟨jsxSpelling.write_eq_of_trimBoth_eq h h', congrArg trimBoth⟩

theorem write_returning_eq_iff {e e' : Element} (h : IsRegular [] [] e.toChild)
    (h' : IsRegular [] [] e'.toChild) (depth : Nat) :
    (Node.returning (.markup e)).write depth = (Node.returning (.markup e')).write depth ↔
      e.toChild.mapLiterals jsxSpelling.value = e'.toChild.mapLiterals jsxSpelling.value := by
  rw [← write_eq_iff h h' (depth + 1), Node.write, Node.write]
  constructor
  · intro heq
    have hlists := congrArg String.toList heq
    simp only [String.toList_append, List.append_assoc] at hlists
    have hrest := List.append_cancel_left (List.append_cancel_left hlists)
    exact String.toList_injective (List.append_cancel_right hrest)
  · intro heq
    rw [heq]

/-! ### Character references -/

section References

/-- What a reference stands for whose ampersand stands before a text, and the text after it, given
what each name stands for. -/
def reference? (denoted : String → Option Char) (s : List Char) : Option (Char × List Char) :=
  (cutAt? ';' s).bind fun r => (denoted (String.ofList r.1)).map (·, r.2)

/-- What is known of names: the double quote has its own, and no name has an ampersand or a double
quote in it. -/
structure AreReferences (denoted : String → Option Char) : Prop where
  quot : denoted "quot" = some '"'
  no_mark : ∀ {name c}, denoted name = some c → '&' ∉ name.toList ∧ '"' ∉ name.toList

variable {denoted : String → Option Char} {s after : List Char} {c : Char}

theorem reference?_eq_some_iff : reference? denoted s = some (c, after) ↔
    ∃ name, s = name ++ ';' :: after ∧ ';' ∉ name ∧ denoted (String.ofList name) = some c := by
  rw [reference?, Option.bind_eq_some_iff]
  constructor
  · rintro ⟨⟨name, rest⟩, hcut, h⟩
    obtain ⟨c', hdenoted, hpair⟩ := Option.map_eq_some_iff.1 h
    obtain ⟨rfl, rfl⟩ := Prod.mk.inj hpair
    obtain ⟨hs, hname⟩ := cutAt?_eq_some_iff.1 hcut
    exact ⟨name, hs, hname, hdenoted⟩
  · rintro ⟨name, hs, hname, hdenoted⟩
    exact ⟨(name, after), cutAt?_eq_some_iff.2 ⟨hs, hname⟩, by rw [hdenoted]; rfl⟩

theorem length_lt_of_reference? (h : reference? denoted s = some (c, after)) :
    after.length < s.length := by
  obtain ⟨name, rfl, -⟩ := reference?_eq_some_iff.1 h
  simp
  omega

def decoded (denoted : String → Option Char) : List Char → List Char
  | [] => []
  | c :: s =>
    if c = '&' then
      match h : reference? denoted s with
      | some (d, after) =>
        have := length_lt_of_reference? h
        d :: decoded denoted after
      | none => c :: decoded denoted s
    else c :: decoded denoted s
termination_by s => s.length

theorem decoded_nil : decoded denoted [] = [] := by
  rw [decoded]

theorem decoded_amp_some (h : reference? denoted s = some (c, after)) :
    decoded denoted ('&' :: s) = c :: decoded denoted after := by
  rw [decoded, if_pos rfl]
  split
  · simp_all
  · simp_all

theorem decoded_amp_none (h : reference? denoted s = none) :
    decoded denoted ('&' :: s) = '&' :: decoded denoted s := by
  rw [decoded, if_pos rfl]
  split
  · simp_all
  · rfl

theorem decoded_cons_of_ne (h : c ≠ '&') : decoded denoted (c :: s) = c :: decoded denoted s := by
  rw [decoded, if_neg h]

def HasReference (denoted : String → Option Char) (s : List Char) : Prop :=
  ∃ before rest r, s = before ++ '&' :: rest ∧ reference? denoted rest = some r

theorem not_hasReference_nil : ¬ HasReference denoted [] := by
  rintro ⟨before, rest, r, h, -⟩
  cases before <;> cases h

theorem hasReference_cons_iff : HasReference denoted (c :: s) ↔
    (c = '&' ∧ (reference? denoted s).isSome) ∨ HasReference denoted s := by
  constructor
  · rintro ⟨before, rest, r, h, hr⟩
    cases before with
    | nil =>
      obtain ⟨rfl, rfl⟩ := List.cons.inj h
      exact .inl ⟨rfl, Option.isSome_of_eq_some hr⟩
    | cons d before => exact .inr ⟨before, rest, r, (List.cons.inj h).2, hr⟩
  · rintro (⟨rfl, hsome⟩ | ⟨before, rest, r, rfl, hr⟩)
    · obtain ⟨r, hr⟩ := Option.isSome_iff_exists.1 hsome
      exact ⟨[], s, r, rfl, hr⟩
    · exact ⟨c :: before, rest, r, rfl, hr⟩

/-- A reference ends with a semicolon. -/
theorem not_hasReference_of_notMem (h : ';' ∉ s) : ¬ HasReference denoted s := by
  rintro ⟨before, rest, ⟨c, after⟩, rfl, hr⟩
  obtain ⟨name, rfl, -⟩ := reference?_eq_some_iff.1 hr
  simp at h

theorem length_decoded_le (denoted : String → Option Char) (s : List Char) :
    (decoded denoted s).length ≤ s.length := by
  fun_induction decoded denoted s with
  | case1 => exact le_rfl
  | case2 s d after h hlt ih => exact Nat.succ_le_succ (ih.trans hlt.le)
  | case3 s h ih => exact Nat.succ_le_succ ih
  | case4 c s hc ih => exact Nat.succ_le_succ ih

theorem length_decoded_lt (h : HasReference denoted s) : (decoded denoted s).length < s.length := by
  fun_induction decoded denoted s with
  | case1 => exact absurd h not_hasReference_nil
  | case2 s d after hr hlt ih =>
    exact Nat.succ_lt_succ ((length_decoded_le denoted after).trans_lt hlt)
  | case3 s hr ih =>
    obtain ⟨-, hsome⟩ | hrest := hasReference_cons_iff.1 h
    · rw [hr] at hsome
      cases hsome
    · exact Nat.succ_lt_succ (ih hrest)
  | case4 c s hc ih =>
    obtain ⟨rfl, -⟩ | hrest := hasReference_cons_iff.1 h
    · exact absurd rfl hc
    · exact Nat.succ_lt_succ (ih hrest)

theorem decoded_of_not_hasReference (h : ¬ HasReference denoted s) : decoded denoted s = s := by
  induction s with
  | nil => exact decoded_nil
  | cons c s ih =>
    obtain ⟨hfirst, hrest⟩ := not_or.1 (hasReference_cons_iff.not.1 h)
    by_cases hc : c = '&'
    · subst hc
      have hnone : reference? denoted s = none := by
        simpa using fun hsome => hfirst ⟨rfl, hsome⟩
      rw [decoded_amp_none hnone, ih hrest]
    · rw [decoded_cons_of_ne hc, ih hrest]

theorem decoded_eq_self_iff : decoded denoted s = s ↔ ¬ HasReference denoted s := by
  refine ⟨fun heq h => ?_, decoded_of_not_hasReference⟩
  exact (length_decoded_lt h).ne (congrArg List.length heq)

/-! ### Values read back -/

theorem flatMap_spelledInValue_of_notMem (h : '"' ∉ s) : s.flatMap spelledInValue = s := by
  rw [List.flatMap_congr (g := fun c => [c])]
  · simp
  · intro c hc
    exact if_neg fun hquote : c = '"' => h (hquote ▸ hc)

/-- A name without an ampersand that is spelled is there before. -/
theorem exists_of_spelled {name after : List Char} (hamp : '&' ∉ name)
    (h : s.flatMap spelledInValue = name ++ ';' :: after) :
    ∃ rest, s = name ++ ';' :: rest ∧ after = rest.flatMap spelledInValue := by
  induction name generalizing s with
  | nil =>
    cases s with
    | nil => cases h
    | cons c s =>
      rw [List.flatMap_cons, spelledInValue] at h
      split_ifs at h
      · cases h
      · obtain ⟨rfl, rfl⟩ := List.cons.inj h
        exact ⟨s, rfl, rfl⟩
  | cons d name ih =>
    obtain ⟨hd, hname⟩ := not_or.1 (List.mem_cons.not.1 hamp)
    cases s with
    | nil => cases h
    | cons c s =>
      rw [List.flatMap_cons, spelledInValue] at h
      split_ifs at h
      · exact absurd (List.cons.inj h).1 hd
      · obtain ⟨rfl, htail⟩ := List.cons.inj h
        obtain ⟨rest, rfl, hafter⟩ := ih hname htail
        exact ⟨rest, rfl, hafter⟩

theorem AreReferences.reference?_spelled (hd : AreReferences denoted) (s : List Char) :
    reference? denoted (s.flatMap spelledInValue) =
      (reference? denoted s).map fun r => (r.1, r.2.flatMap spelledInValue) := by
  refine Option.ext fun ⟨c, after⟩ => ?_
  rw [reference?_eq_some_iff, Option.map_eq_some_iff]
  constructor
  · rintro ⟨name, hs, hname, hdenoted⟩
    have hamp : '&' ∉ name := by simpa using (hd.no_mark hdenoted).1
    obtain ⟨rest, hrest, hafter⟩ := exists_of_spelled hamp hs
    exact ⟨(c, rest), reference?_eq_some_iff.2 ⟨name, hrest, hname, hdenoted⟩,
      Prod.ext rfl hafter.symm⟩
  · rintro ⟨⟨c', rest⟩, hr, hpair⟩
    obtain ⟨rfl, rfl⟩ := Prod.mk.inj hpair
    obtain ⟨name, rfl, hname, hdenoted⟩ := reference?_eq_some_iff.1 hr
    have hquote : '"' ∉ name := by simpa using (hd.no_mark hdenoted).2
    refine ⟨name, ?_, hname, hdenoted⟩
    rw [List.flatMap_append, flatMap_spelledInValue_of_notMem hquote, List.flatMap_cons]
    rfl

/-- A value as it is written is read like the value itself. -/
theorem AreReferences.decoded_spelled (hd : AreReferences denoted) (s : List Char) :
    decoded denoted (s.flatMap spelledInValue) = decoded denoted s := by
  fun_induction decoded denoted s with
  | case1 => exact decoded_nil
  | case2 s d after h hlt ih =>
    -- the name of a reference has no quote, so the reference is written as it is
    have hspelled := hd.reference?_spelled s
    rw [h] at hspelled
    exact (decoded_amp_some hspelled).trans (congrArg _ ih)
  | case3 s h ih =>
    have hspelled := hd.reference?_spelled s
    rw [h] at hspelled
    exact (decoded_amp_none hspelled).trans (congrArg _ ih)
  | case4 c s hc ih =>
    rw [List.flatMap_cons, spelledInValue]
    split_ifs with hquote
    · -- here the value has a quote and what is written its reference, and both are read as a quote
      subst hquote
      have hquot : reference? denoted ("quot".toList ++ ';' :: s.flatMap spelledInValue) =
          some ('"', s.flatMap spelledInValue) :=
        reference?_eq_some_iff.2 ⟨_, rfl, by decide, hd.quot⟩
      exact (decoded_amp_some hquot).trans (congrArg _ ih)
    · exact (decoded_cons_of_ne hc).trans (congrArg _ ih)

theorem AreReferences.decoded_value (hd : AreReferences denoted) (v : String) :
    decoded denoted (jsxSpelling.value v).toList = decoded denoted v.toList := by
  rw [toList_value, hd.decoded_spelled]

/-- Markup in a script is written alike, as an expression or as what a function returns, exactly if
it is the same up to the spelling of its values, so exactly if it is the same when no value has a
character reference in it. A value is read back from what is written for it exactly if it has
none. -/
theorem markup_written_eq_iff (hd : AreReferences denoted) {e e' : Element}
    (h : IsRegular [] [] e.toChild) (h' : IsRegular [] [] e'.toChild) (depth : Nat) :
    ((Expr.markup e).text depth = (Expr.markup e').text depth ↔
      e.toChild.mapLiterals jsxSpelling.value = e'.toChild.mapLiterals jsxSpelling.value) ∧
    ((Node.returning (.markup e)).write depth = (Node.returning (.markup e')).write depth ↔
      e.toChild.mapLiterals jsxSpelling.value = e'.toChild.mapLiterals jsxSpelling.value) ∧
    ((∀ v ∈ e.toChild.literals ++ e'.toChild.literals, ¬ HasReference denoted v.toList) →
      (e.toChild.mapLiterals jsxSpelling.value = e'.toChild.mapLiterals jsxSpelling.value ↔
        e = e')) ∧
    ∀ v : String, decoded denoted (jsxSpelling.value v).toList = v.toList ↔
      ¬ HasReference denoted v.toList := by
  refine ⟨text_markup_eq_iff h h' depth, write_returning_eq_iff h h' depth, fun hnone => ?_,
    fun v => ?_⟩
  · obtain ⟨hvalues, hvalues'⟩ := List.forall_mem_append.1 hnone
    have hback : ∀ v : String, ¬ HasReference denoted v.toList →
        String.ofList (decoded denoted (jsxSpelling.value v).toList) = v := by
      intro v hv
      rw [hd.decoded_value, decoded_of_not_hasReference hv, String.ofList_toList]
    constructor
    · exact Element.eq_of_mapLiterals_eq (g := fun s => String.ofList (decoded denoted s.toList))
        (fun v hv => hback v (hvalues v hv)) (fun v hv => hback v (hvalues' v hv))
    · rintro rfl
      rfl
  · rw [hd.decoded_value, decoded_eq_self_iff]

def namedReferences : String → Option Char
  | "quot" => some '"'
  | "amp" => some '&'
  | "lt" => some '<'
  | "gt" => some '>'
  | "apos" => some '\''
  | _ => none

theorem areReferences_namedReferences : AreReferences namedReferences where
  quot := rfl
  no_mark {name c} h := by
    unfold namedReferences at h
    split at h
    · decide
    · decide
    · decide
    · decide
    · decide
    · cases h

def greetingButton (title : String) : Element where
  tag := "button"
  attrs := [("title", .literal title), ("disabled", .flag)]
  children := [.text "\x7bHello & bye\x7d"]

theorem isRegular_greetingButton (title : String) :
    IsRegular [] [] (greetingButton title).toChild := by
  have hbutton : IsName "button" := isName_of_chars (by decide) rfl
  have htitle : IsName "title" := isName_of_chars (by decide) rfl
  have hdisabled : IsName "disabled" := isName_of_chars (by decide) rfl
  exact .text hbutton
    (List.forall_mem_cons.2 ⟨.literal htitle _, List.forall_mem_singleton.2 (.flag hdisabled)⟩)
    (List.not_mem_nil) (List.not_mem_nil) (by decide)

theorem markup_written_eq_iff_greetingButton :
    AreReferences namedReferences ∧
    (∀ title, IsRegular [] [] (greetingButton title).toChild) ∧
    (Expr.markup (greetingButton "\"Hello\" & \"bye\"")).text 1 ≠
      (Expr.markup (greetingButton "\"Hello\" &amp \"bye\"")).text 1 := by
  refine ⟨areReferences_namedReferences, isRegular_greetingButton, fun heq => ?_⟩
  obtain ⟨htext, -, hsame, -⟩ := markup_written_eq_iff areReferences_namedReferences
    (isRegular_greetingButton "\"Hello\" & \"bye\"")
    (isRegular_greetingButton "\"Hello\" &amp \"bye\"") 1
  have hnone : ∀ v ∈ ["\"Hello\" & \"bye\"", "\"Hello\" &amp \"bye\""],
      ¬ HasReference namedReferences v.toList := by
    intro v hv
    obtain rfl | hv := List.mem_cons.1 hv
    · exact not_hasReference_of_notMem (by decide)
    · obtain rfl := List.mem_singleton.1 hv
      exact not_hasReference_of_notMem (by decide)
  exact absurd (congrArg Element.attrs ((hsame hnone).1 (htext.1 heq))) (by decide)

/-- A double quote and its reference are written alike. -/
theorem text_markup_greetingButton :
    IsRegular [] [] (greetingButton "\"").toChild ∧
    IsRegular [] [] (greetingButton "&quot;").toChild ∧
    greetingButton "\"" ≠ greetingButton "&quot;" ∧
    (Expr.markup (greetingButton "\"")).text 0 = (Expr.markup (greetingButton "&quot;")).text 0 ∧
    decoded namedReferences (jsxSpelling.value "&quot;").toList ≠ "&quot;".toList := by
  have hquote := isRegular_greetingButton "\""
  have hreference := isRegular_greetingButton "&quot;"
  have hname : reference? namedReferences "quot;".toList = some ('"', []) :=
    reference?_eq_some_iff.2 ⟨"quot".toList, rfl, by decide, rfl⟩
  refine ⟨hquote, hreference, fun heq => ?_, ?_, ?_⟩
  · exact absurd (congrArg Element.attrs heq) (by decide)
  · exact (text_markup_eq_iff hquote hreference 0).2 (by rfl)
  · rw [areReferences_namedReferences.decoded_value]
    exact fun heq => decoded_eq_self_iff.1 heq ⟨[], "quot;".toList, _, rfl, hname⟩

end References

end Sitewright.Script
