import Sitewright.Toml.Reader

/-!
# Strings in TOML

What a string in quotes uses up of the text, and when it is read as it is written: a basic string
has no more characters than are written for it, and fewer if there is an escape. So a text that is
put between quotes as it is can only be read back if it has neither quotes nor backslashes nor
control characters.
-/

namespace Sitewright.Toml

variable {s v rest : List Char} {c : Char} {n : Nat} {skipping : Bool}

/-- Whether a character stands for itself in a basic string. -/
def IsPlain (c : Char) : Prop := isPrintable c = true ∧ c ≠ '"' ∧ c ≠ '\\'

instance (c : Char) : Decidable (IsPlain c) := inferInstanceAs (Decidable (_ ∧ _))

def IsPlainText (s : List Char) : Prop := ∀ c ∈ s, IsPlain c

instance (s : List Char) : Decidable (IsPlainText s) :=
  List.decidableBAll IsPlain s

/-! ## Escapes are written in one line -/

theorem ne_newline_of_hexValue? (h : Json.hexValue? c = some n) : c ≠ '\n' := by
  rintro rfl
  cases h

theorem newline_notMem_of_hexQuad? {a b c d : Char} (h : Json.hexQuad? a b c d = some n) :
    '\n' ∉ [a, b, c, d] := by
  simp only [Json.hexQuad?, Option.bind_eq_bind, Option.bind_eq_some_iff] at h
  obtain ⟨_, ha, _, hb, _, hc, _, hd, -⟩ := h
  simp [(ne_newline_of_hexValue? ha).symm, (ne_newline_of_hexValue? hb).symm,
    (ne_newline_of_hexValue? hc).symm, (ne_newline_of_hexValue? hd).symm]

theorem newline_notMem_of_hexEight? (h : hexEight? s = some n) : '\n' ∉ s := by
  obtain ⟨digits, hdigits, -⟩ := Option.map_eq_some_iff.1 h
  clear h
  induction s generalizing digits with
  | nil => simp
  | cons a s ih =>
    simp only [List.mapM_cons, Option.bind_eq_bind, Option.bind_eq_some_iff] at hdigits
    obtain ⟨_, ha, digits, hs, -⟩ := hdigits
    simp [(ne_newline_of_hexValue? ha).symm, ih digits hs]

theorem ne_newline_of_simpleEscape? {e : Char} (h : simpleEscape? e = some c) : e ≠ '\n' := by
  rintro rfl
  cases h

/-! ## Basic strings -/

/-- Some text for the value of a basic string: it stands in one line, and has more characters than
the value unless all of them stand for themselves. -/
structure Spells (spelled v : List Char) : Prop where
  newline : '\n' ∉ spelled
  length_le : v.length ≤ spelled.length
  plain : v.length = spelled.length → v = spelled ∧ IsPlainText v

namespace Spells

variable {spelled : List Char}

theorem nil : Spells [] [] := ⟨by simp, Nat.le_refl _, fun _ => ⟨rfl, nofun⟩⟩

theorem escape (h : Spells spelled v) (code : List Char) (hcode : 2 ≤ code.length)
    (hline : '\n' ∉ code) (c : Char) : Spells (code ++ spelled) (c :: v) where
  newline := by simp [hline, h.newline]
  length_le := by
    have := h.length_le
    simp only [List.length_cons, List.length_append]
    omega
  plain hlength := by
    have := h.length_le
    simp only [List.length_cons, List.length_append] at hlength
    omega

theorem cons (h : Spells spelled v) (hc : IsPlain c) (hline : c ≠ '\n') :
    Spells (c :: spelled) (c :: v) where
  newline := by simp [hline.symm, h.newline]
  length_le := by simpa using h.length_le
  plain hlength := by
    obtain ⟨rfl, hplain⟩ := h.plain (by simpa using hlength)
    exact ⟨rfl, List.forall_mem_cons.2 ⟨hc, hplain⟩⟩

end Spells

theorem exists_of_bind_cons {found : Option (List Char × List Char)}
    (h : (do let (tail, rest) ← found; pure (c :: tail, rest)) = some (v, rest)) :
    ∃ tail, v = c :: tail ∧ found = some (tail, rest) := by
  obtain ⟨⟨tail, rest⟩, hfound, h⟩ := Option.bind_eq_some_iff.1 h
  cases h
  exact ⟨tail, rfl, hfound⟩

/-- A basic string ends with a quote, in front of which its value is spelled. -/
theorem exists_of_basicTail (h : basicTail s = some (v, rest)) :
    ∃ spelled, s = spelled ++ '"' :: rest ∧ Spells spelled v := by
  fun_induction basicTail s generalizing v with
  | case1 => cases h
  | case2 => cases h; exact ⟨[], rfl, .nil⟩
  | case3 a b c d s ih =>
    obtain ⟨n, hcode, h⟩ := Option.bind_eq_some_iff.1 h
    obtain ⟨char, -, h⟩ := Option.bind_eq_some_iff.1 h
    obtain ⟨tail, rfl, htail⟩ := exists_of_bind_cons h
    obtain ⟨spelled, rfl, hspells⟩ := ih htail
    exact ⟨_, rfl, hspells.escape ['\\', 'u', a, b, c, d] (by simp)
      (by simpa using newline_notMem_of_hexQuad? hcode) char⟩
  | case4 a b c d e f g k s ih =>
    obtain ⟨n, hcode, h⟩ := Option.bind_eq_some_iff.1 h
    obtain ⟨char, -, h⟩ := Option.bind_eq_some_iff.1 h
    obtain ⟨tail, rfl, htail⟩ := exists_of_bind_cons h
    obtain ⟨spelled, rfl, hspells⟩ := ih htail
    exact ⟨_, rfl, hspells.escape ['\\', 'U', a, b, c, d, e, f, g, k] (by simp)
      (by simpa using newline_notMem_of_hexEight? hcode) char⟩
  | case5 e s _ _ ih =>
    obtain ⟨char, hcode, h⟩ := Option.bind_eq_some_iff.1 h
    obtain ⟨tail, rfl, htail⟩ := exists_of_bind_cons h
    obtain ⟨spelled, rfl, hspells⟩ := ih htail
    exact ⟨_, rfl, hspells.escape ['\\', e] (by simp)
      (by simpa using (ne_newline_of_simpleEscape? hcode).symm) char⟩
  | case6 => cases h
  | case7 c s hquote _ _ _ hc ih =>
    obtain ⟨tail, rfl, htail⟩ := exists_of_bind_cons h
    obtain ⟨spelled, rfl, hspells⟩ := ih htail
    simp only [not_or, Bool.not_eq_true', Bool.not_eq_false] at hc
    refine ⟨c :: spelled, rfl, hspells.cons ⟨hc.2, hquote, hc.1⟩ ?_⟩
    rintro rfl
    exact absurd hc.2 (by decide)

theorem basicTail_of_plain (h : IsPlainText s) (rest : List Char) :
    basicTail (s ++ '"' :: rest) = some (s, rest) := by
  induction s with
  | nil => rfl
  | cons c s ih =>
    obtain ⟨⟨hprintable, hquote, hbackslash⟩, hs⟩ := List.forall_mem_cons.1 h
    rw [List.cons_append, basicTail, ih hs]
    · simp [hprintable, hbackslash]
    · exact hquote
    · simp [hbackslash]
    · simp [hbackslash]
    · simp [hbackslash]

/-! ## Strings of several lines -/

/-- Three quotes stand in front of the rest of a text, and before them there are at least as many
characters as in a value. -/
def EndsLong (s v rest : List Char) : Prop :=
  ∃ spelled, s = spelled ++ '"' :: '"' :: '"' :: rest ∧ v.length ≤ spelled.length

theorem EndsLong.skip (h : EndsLong s v rest) (code : List Char) : EndsLong (code ++ s) v rest := by
  obtain ⟨spelled, rfl, hlength⟩ := h
  refine ⟨code ++ spelled, (List.append_assoc ..).symm, ?_⟩
  rw [List.length_append]
  omega

theorem EndsLong.cons (h : EndsLong s v rest) (code : List Char) (hcode : code ≠ []) (c : Char) :
    EndsLong (code ++ s) (c :: v) rest := by
  obtain ⟨spelled, rfl, hlength⟩ := h
  have hpos := List.length_pos_iff.2 hcode
  refine ⟨code ++ spelled, (List.append_assoc ..).symm, ?_⟩
  rw [List.length_append, List.length_cons]
  omega

theorem endsLong_of_longBasicTail (h : longBasicTail skipping s = some (v, rest)) :
    EndsLong s v rest := by
  fun_induction longBasicTail skipping s generalizing v with
  | case1 => cases h
  | case2 => cases h; exact ⟨['"', '"'], rfl, Nat.le_refl _⟩
  | case3 => cases h; exact ⟨['"'], rfl, Nat.le_refl _⟩
  | case4 => cases h; exact ⟨[], rfl, Nat.le_refl _⟩
  | case5 skipping a b c d s ih =>
    obtain ⟨n, -, h⟩ := Option.bind_eq_some_iff.1 h
    obtain ⟨char, -, h⟩ := Option.bind_eq_some_iff.1 h
    obtain ⟨tail, rfl, htail⟩ := exists_of_bind_cons h
    exact (ih htail).cons ['\\', 'u', a, b, c, d] (by simp) char
  | case6 skipping a b c d e f g k s ih =>
    obtain ⟨n, -, h⟩ := Option.bind_eq_some_iff.1 h
    obtain ⟨char, -, h⟩ := Option.bind_eq_some_iff.1 h
    obtain ⟨tail, rfl, htail⟩ := exists_of_bind_cons h
    exact (ih htail).cons ['\\', 'U', a, b, c, d, e, f, g, k] (by simp) char
  | case7 skipping e s _ _ _ ih => exact (ih h).skip ['\\']
  | case8 skipping e s _ _ _ ih =>
    obtain ⟨char, -, h⟩ := Option.bind_eq_some_iff.1 h
    obtain ⟨tail, rfl, htail⟩ := exists_of_bind_cons h
    exact (ih htail).cons ['\\', e] (by simp) char
  | case9 s ih => exact (ih h).skip ['\r', '\n']
  | case10 skipping s _ ih =>
    obtain ⟨tail, rfl, htail⟩ := exists_of_bind_cons h
    exact (ih htail).cons ['\r', '\n'] (by simp) '\n'
  | case11 skipping c s _ _ _ _ _ _ _ _ ih => exact (ih h).skip [c]
  | case12 => cases h
  | case13 skipping c s _ _ _ _ _ _ _ _ _ ih =>
    obtain ⟨tail, rfl, htail⟩ := exists_of_bind_cons h
    exact (ih htail).cons [c] (by simp) c

/-! ## A text between quotes -/

theorem string?_of_plain (hs : s ≠ []) (h : IsPlainText s) (rest : List Char) :
    string? ('"' :: (s ++ '"' :: rest)) = some (String.ofList s, rest) := by
  obtain ⟨c, s, rfl⟩ := List.exists_cons_of_ne_nil hs
  have hquote : c ≠ '"' := (h c List.mem_cons_self).2.1
  rw [string?]
  · rw [basicTail_of_plain h rest]
    rfl
  · simp [hquote]

theorem dropNewline_suffix (s : List Char) : dropNewline s <:+ s := by
  fun_cases dropNewline s with
  | case1 rest => exact ⟨['\n'], rfl⟩
  | case2 rest => exact ⟨['\r', '\n'], rfl⟩
  | case3 => exact List.suffix_rfl

/-- A value that is read back from a text in front of a quote and a line end ends with that quote:
it would need more characters to go on in the same line. -/
theorem Spells.length_eq {spelled after : List Char} (h : Spells spelled s)
    (heq : s ++ '"' :: '\n' :: after = spelled ++ '"' :: rest) : s.length = spelled.length := by
  obtain ⟨more, hspelled, hmore⟩ | ⟨more, hs, -⟩ := List.append_eq_append_iff.1 heq
  · match more, hmore with
    | [], _ => rw [hspelled, List.append_nil]
    | [_], hmore => simp at hmore
    | _ :: _ :: more, hmore =>
      obtain ⟨-, hline, -⟩ : _ ∧ '\n' = _ ∧ after = more ++ '"' :: rest := by simpa using hmore
      exact absurd (by simp [hspelled, ← hline]) h.newline
  · have hlength := h.length_le
    rw [hs, List.length_append] at hlength ⊢
    omega

/-- A text between quotes at the end of a line is only read as it is if it is plain, unless a string
of several lines ends further down. -/
theorem plain_of_string? {after : List Char}
    (hafter : ¬ ['"', '"', '"'] <:+: after)
    (h : string? ('"' :: (s ++ '"' :: '\n' :: after)) = some (String.ofList s, rest)) :
    IsPlainText s := by
  have hfinish {found : Option (List Char × List Char)}
      (h : found.map string?.finish = some (String.ofList s, rest)) : found = some (s, rest) := by
    obtain ⟨⟨v, rest⟩, hfound, hpair⟩ := Option.map_eq_some_iff.1 h
    obtain ⟨hv, rfl⟩ := Prod.mk.inj hpair
    have hv : v = s := String.ofList_injective hv
    rw [hfound, hv]
  rw [string?.eq_def] at h
  split at h
  · next r heq =>
    obtain ⟨spelled, hspelled, hlength⟩ := endsLong_of_longBasicTail (hfinish h)
    obtain ⟨front, hfront⟩ := dropNewline_suffix r
    have heq : s ++ '"' :: '\n' :: after =
        ('"' :: '"' :: (front ++ spelled)) ++ '"' :: '"' :: '"' :: rest := by
      rw [List.cons.inj heq |>.2, ← hfront, hspelled]
      simp
    have hsuffix : ('"' :: '"' :: '"' :: rest) <:+ after := by
      refine List.suffix_of_suffix_length_le ⟨_, heq.symm⟩ ⟨s ++ ['"', '\n'], by simp⟩ ?_
      have := congrArg List.length heq
      simp only [List.length_append, List.length_cons] at this ⊢
      omega
    have hquotes : ['"', '"', '"'] <+: '"' :: '"' :: '"' :: rest := ⟨rest, rfl⟩
    exact absurd (hquotes.isInfix.trans hsuffix.isInfix) hafter
  · next heq => cases heq
  · next r _ heq =>
    obtain rfl := (List.cons.inj heq).2
    obtain ⟨spelled, hspelled, hspells⟩ := exists_of_basicTail (hfinish h)
    exact (hspells.plain (hspells.length_eq hspelled)).2
  · next heq => cases heq
  · cases h

end Sitewright.Toml
