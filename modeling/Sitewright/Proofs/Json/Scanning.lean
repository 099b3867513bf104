import Sitewright.Json.Printer
import Sitewright.Json.Token
import Mathlib.Tactic.SplitIfs

/-!
# Scanning what was written

A token that is written is scanned again as itself, whatever follows it. A number needs what follows
not to go on with the number.
-/

namespace Sitewright.Json

/-! ## Strings -/

/-- How a character may stand in a string, and the piece that it is scanned as. -/
inductive Spelled (c : Char) : List Char → Piece → Prop
  | plain (hquote : c ≠ '"') (hbackslash : c ≠ '\\') (hprinted : ¬ c.toNat < 0x20) :
      Spelled c [c] (.char c)
  | short {e : Char} (he : simpleEscape? e = some c) : Spelled c ['\\', e] (.char c)
  | unit (hcontrol : c.toNat < 0x20) : Spelled c
      ['\\', 'u', '0', '0', Nat.digitChar (c.toNat / 16), Nat.digitChar (c.toNat % 16)]
      (.unit c.toNat)

theorem exists_spelled (c : Char) : ∃ piece, Spelled c (escaped c) piece := by
  unfold escaped
  split_ifs with hquote hbackslash hbreak hreturn htab hback hfeed hcontrol
  · subst hquote; exact ⟨_, .short rfl⟩
  · subst hbackslash; exact ⟨_, .short rfl⟩
  · subst hbreak; exact ⟨_, .short rfl⟩
  · subst hreturn; exact ⟨_, .short rfl⟩
  · subst htab; exact ⟨_, .short rfl⟩
  · subst hback; exact ⟨_, .short rfl⟩
  · subst hfeed; exact ⟨_, .short rfl⟩
  · exact ⟨_, .unit hcontrol⟩
  · exact ⟨_, .plain hquote hbackslash hcontrol⟩

theorem hexQuad?_digitChars : ∀ n < 0x20,
    hexQuad? '0' '0' (Nat.digitChar (n / 16)) (Nat.digitChar (n % 16)) = some n := by
  decide

theorem Spelled.stringPieces {c : Char} {text rest after : List Char} {piece : Piece}
    {pieces : List Piece} (h : Spelled c text piece)
    (hrest : stringPieces rest = some (pieces, after)) :
    Json.stringPieces (text ++ rest) = some (piece :: pieces, after) := by
  cases h with
  | plain hquote hbackslash hprinted =>
    simp [Json.stringPieces, hbackslash, hprinted, hrest]
  | @short e he =>
    have hunit : e ≠ 'u' := by
      rintro rfl
      cases he
    simp [Json.stringPieces, hunit, he, hrest]
  | unit hcontrol =>
    simp [Json.stringPieces, hexQuad?_digitChars _ hcontrol, hrest]

theorem Spelled.textOfPieces {c : Char} {text : List Char} {piece : Piece}
    (h : Spelled c text piece) (pieces : List Piece) :
    Json.textOfPieces (piece :: pieces) = (Json.textOfPieces pieces).map (c :: ·) := by
  cases h with
  | plain | short => rfl
  | unit hcontrol =>
    have hhigh : isHighSurrogate c.toNat = false := by simp [isHighSurrogate]; omega
    have hlow : isLowSurrogate c.toNat = false := by simp [isLowSurrogate]; omega
    have hchar := Char.ofNat_toNat c
    cases pieces with
    | nil => simp [Json.textOfPieces, hhigh, hlow, hchar]
    | cons piece pieces => cases piece <;> simp [Json.textOfPieces, hhigh, hlow, hchar]

theorem exists_stringPieces (text rest : List Char) : ∃ pieces,
    stringPieces (text.flatMap escaped ++ '"' :: rest) = some (pieces, rest) ∧
    textOfPieces pieces = some text := by
  induction text with
  | nil => exact ⟨[], rfl, rfl⟩
  | cons c text ih =>
    obtain ⟨pieces, hpieces, htext⟩ := ih
    obtain ⟨piece, hpiece⟩ := exists_spelled c
    refine ⟨piece :: pieces, ?_, ?_⟩
    · rw [List.flatMap_cons, List.append_assoc]
      exact hpiece.stringPieces hpieces
    · rw [hpiece.textOfPieces, htext, Option.map_some]

theorem scanToken_quoted (s : String) (rest : List Char) :
    scanToken ((quoted s).toList ++ rest) = some (.string (some s), rest) := by
  obtain ⟨pieces, hpieces, htext⟩ := exists_stringPieces s.toList rest
  simp [quoted, scanToken, hpieces, htext]

/-! ## Numbers -/

/-- A text that does not go on with a number in front of it. -/
def EndsNumber (rest : List Char) : Prop :=
  ∀ c ∈ rest.head?, c.isDigit = false ∧ c ≠ '.' ∧ c ≠ 'e' ∧ c ≠ 'E'

variable {s rest after : List Char}

theorem spanDigits_append (hrest : EndsNumber rest) :
    spanDigits (s ++ rest) = ((spanDigits s).1, (spanDigits s).2 ++ rest) := by
  induction s with
  | nil =>
    cases rest with
    | nil => rfl
    | cons c rest => simp [spanDigits, (hrest c rfl).1]
  | cons c s ih =>
    simp only [spanDigits, Prod.mk.injEq] at ih
    by_cases hc : c.isDigit = true
    · simp [spanDigits, hc, ih]
    · simp [spanDigits, hc]

theorem scanPlaces_of_ne {c : Char} (hc : c ≠ '.') : scanPlaces (c :: s) = some (none, c :: s) := by
  simp [scanPlaces, hc]

theorem scanPlaces_append {places : Option (List Char)} (hrest : EndsNumber rest)
    (h : scanPlaces s = some (places, after)) :
    scanPlaces (s ++ rest) = some (places, after ++ rest) := by
  cases s with
  | nil =>
    cases h
    cases rest with
    | nil => rfl
    | cons c rest => exact scanPlaces_of_ne (hrest c rfl).2.1
  | cons c s =>
    by_cases hc : c = '.'
    · subst hc
      rw [scanPlaces] at h
      rw [List.cons_append, scanPlaces, spanDigits_append hrest]
      split at h
      · cases h
      · next ds later hne hfound =>
        cases h
        simp only [hfound]
    · rw [scanPlaces_of_ne hc] at h
      cases h
      exact scanPlaces_of_ne hc

def splitSign : List Char → Bool × List Char
  | '-' :: rest => (true, rest)
  | '+' :: rest => (false, rest)
  | rest => (false, rest)

theorem splitSign_append (hs : s ≠ []) :
    splitSign (s ++ rest) = ((splitSign s).1, (splitSign s).2 ++ rest) := by
  cases s with
  | nil => exact absurd rfl hs
  | cons c s =>
    by_cases hminus : c = '-'
    · subst hminus; rfl
    · by_cases hplus : c = '+'
      · subst hplus; rfl
      · simp [splitSign, hminus, hplus]

theorem scanExponent_of_mark {c : Char} (hc : c = 'e' ∨ c = 'E') :
    scanExponent (c :: s) = match spanDigits (splitSign s).2 with
      | ([], _) => none
      | (ds, later) =>
        some (some (if (splitSign s).1 then -(digitsValue ds : Int) else digitsValue ds), later) :=
  if_pos hc

theorem scanExponent_of_ne {c : Char} (hlower : c ≠ 'e') (hupper : c ≠ 'E') :
    scanExponent (c :: s) = some (none, c :: s) := by
  simp [scanExponent, hlower, hupper]

theorem scanExponent_append {exponent : Option Int} (hrest : EndsNumber rest)
    (h : scanExponent s = some (exponent, after)) :
    scanExponent (s ++ rest) = some (exponent, after ++ rest) := by
  cases s with
  | nil =>
    cases h
    cases rest with
    | nil => rfl
    | cons c rest =>
      obtain ⟨-, -, hlower, hupper⟩ := hrest c rfl
      exact scanExponent_of_ne hlower hupper
  | cons c s =>
    by_cases hc : c = 'e' ∨ c = 'E'
    · rw [scanExponent_of_mark hc] at h
      have hs : s ≠ [] := by
        rintro rfl
        cases h
      rw [List.cons_append, scanExponent_of_mark hc, splitSign_append hs, spanDigits_append hrest]
      split at h
      · cases h
      · next ds later hne hfound =>
        cases h
        simp only [hfound]
    · obtain ⟨hlower, hupper⟩ := not_or.1 hc
      rw [scanExponent_of_ne hlower hupper] at h
      cases h
      exact scanExponent_of_ne hlower hupper

def wholeDigits? : List Char → Option (List Char × List Char)
  | '0' :: rest => some (['0'], rest)
  | s => if (spanDigits s).1 = [] then none else some (spanDigits s)

theorem wholeDigits?_of_ne (hs : ∀ later, s = '0' :: later → False) :
    wholeDigits? s = if (spanDigits s).1 = [] then none else some (spanDigits s) := by
  rw [wholeDigits?]
  exact hs

theorem wholeDigits?_append {whole : List Char} (hrest : EndsNumber rest)
    (h : wholeDigits? s = some (whole, after)) :
    wholeDigits? (s ++ rest) = some (whole, after ++ rest) := by
  cases s with
  | nil => cases h
  | cons c s =>
    by_cases hc : c = '0'
    · subst hc
      cases h
      rfl
    · have hne (t later : List Char) : c :: t = '0' :: later → False := by simp [hc]
      rw [wholeDigits?_of_ne (hne s), Option.ite_none_left_eq_some] at h
      obtain ⟨hwhole, hfound⟩ := h
      rw [Option.some.inj hfound] at hwhole
      rw [List.cons_append, wholeDigits?_of_ne (hne _), ← List.cons_append,
        spanDigits_append hrest, Option.some.inj hfound, if_neg hwhole]

theorem scanNumber_eq (negative : Bool) (s : List Char) : scanNumber negative s =
    (wholeDigits? s).bind fun (whole, rest) => (scanPlaces rest).bind fun (places, rest) =>
      (scanExponent rest).bind fun (exponent, rest) =>
        some (.number (numberOf negative whole places exponent), rest) := by
  unfold scanNumber
  split
  · rfl
  · next hs =>
    rw [wholeDigits?_of_ne hs]
    cases spanDigits s with
    | mk ds rest => cases ds <;> rfl

theorem scanNumber_append {negative : Bool} {token : Token} (hrest : EndsNumber rest)
    (h : scanNumber negative s = some (token, after)) :
    scanNumber negative (s ++ rest) = some (token, after ++ rest) := by
  simp only [scanNumber_eq, Option.bind_eq_some_iff, Prod.exists] at h ⊢
  obtain ⟨whole, behindWhole, hwhole, places, behindPlaces, hplaces, exponent, behind, hexponent,
    heq⟩ := h
  cases heq
  exact ⟨_, _, wholeDigits?_append hrest hwhole, _, _, scanPlaces_append hrest hplaces, _, _,
    scanExponent_append hrest hexponent, rfl⟩

theorem scanToken_of_isDigit {c : Char} (hc : c.isDigit = true) :
    scanToken (c :: s) = scanNumber false (c :: s) := by
  unfold scanToken
  split <;> first | rfl | simp_all

theorem scanNumber_of_not_isDigit {negative : Bool} {c : Char} (hc : c.isDigit = false) :
    scanNumber negative (c :: s) = none := by
  have hzero (later : List Char) : c :: s = '0' :: later → False := by
    rintro ⟨⟩
    cases hc
  have hspan : (spanDigits (c :: s)).1 = [] := by simp [spanDigits, hc]
  rw [scanNumber_eq, wholeDigits?_of_ne hzero, if_pos hspan, Option.bind_none]

theorem begins_number {c : Char} {n : Option Number}
    (h : scanToken (c :: s) = some (.number n, after)) : c = '-' ∨ c.isDigit = true := by
  cases hc : c.isDigit with
  | true => exact .inr rfl
  | false =>
    unfold scanToken at h
    split at h
    case h_10 =>
      obtain ⟨found, -, hfound⟩ := Option.bind_eq_some_iff.1 h
      cases hfound
    case h_11 heq => exact .inl (List.cons.inj heq).1
    case h_12 =>
      rw [scanNumber_of_not_isDigit hc] at h
      cases h
    all_goals cases h

theorem scanToken_number_append {n : Option Number} (hrest : EndsNumber rest)
    (h : scanToken s = some (.number n, after)) :
    scanToken (s ++ rest) = some (.number n, after ++ rest) := by
  cases s with
  | nil => cases h
  | cons c s =>
    obtain rfl | hc := begins_number h
    · exact scanNumber_append hrest h
    · rw [scanToken_of_isDigit hc] at h
      rw [List.cons_append, scanToken_of_isDigit hc]
      exact scanNumber_append hrest h

end Sitewright.Json
