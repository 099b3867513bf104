import Mathlib.Data.Nat.Basic
import Mathlib.Order.Basic
import Mathlib.Tactic.SplitIfs
import Sitewright.Json.Token
import Sitewright.Proofs.Text.Codes
import Sitewright.Script.Printer

/-!
# String literals as scripts read them

The value of a string literal is a list of code units of UTF-16. In a module it is read by the rules
of strict code: there are no octal escapes, and a line feed or a carriage return stands only after a
backslash. An escape with its backslash is longer than what it stands for, so a text reads back as
itself exactly if there is nothing in it to escape.
-/

namespace Sitewright.Script

/-! ### The lexical grammar -/

def codeUnits (n : Nat) : List Nat :=
  if n < 0x10000 then [n] else [0xD800 + (n - 0x10000) / 0x400, 0xDC00 + (n - 0x10000) % 0x400]

def units (s : List Char) : List Nat := s.flatMap fun c => codeUnits c.toNat

def lineTerminators : List Char := ['\n', '\r', '\u2028', '\u2029']

def controlEscapes : List (Char × Nat) :=
  [('b', 8), ('t', 9), ('n', 10), ('v', 11), ('f', 12), ('r', 13)]

def hexNumber? (digits : List Char) : Option Nat :=
  (digits.mapM Json.hexValue?).map fun ds => ds.foldl (fun n d => n * 16 + d) 0

def hexEscape? (count : Nat) (s : List Char) : Option (List Nat × List Char) :=
  if count ≤ s.length then (hexNumber? (s.take count)).map fun n => ([n], s.drop count) else none

def bracedEscape? (s : List Char) : Option (List Nat × List Char) :=
  (cutAt? '\x7d' s).bind fun r => (hexNumber? r.1).bind fun n =>
    if r.1 ≠ [] ∧ n ≤ 0x10FFFF then some (codeUnits n, r.2) else none

/-- The code units that the escape stands for whose backslash stands before a text, and the text
after it. -/
def escape? : List Char → Option (List Nat × List Char)
  | [] => none
  | c :: s =>
    if c = '\r' ∧ s.head? = some '\n' then some ([], s.tail)
    else if c ∈ lineTerminators then some ([], s)
    else if c = 'x' then hexEscape? 2 s
    else if c = 'u' then
      if s.head? = some '\x7b' then bracedEscape? s.tail else hexEscape? 4 s
    else if c.isDigit then
      if c = '0' ∧ s.head?.all (! ·.isDigit) then some ([0], s) else none
    else match controlEscapes.lookup c with
      | some unit => some ([unit], s)
      | none => some (codeUnits c.toNat, s)

variable {s t rest : List Char} {u v : List Nat} {c : Char}

@[simp] theorem units_nil : units [] = [] := rfl

@[simp] theorem units_cons (c : Char) (s : List Char) :
    units (c :: s) = codeUnits c.toNat ++ units s := rfl

@[simp] theorem units_append (s t : List Char) : units (s ++ t) = units s ++ units t :=
  List.flatMap_append

theorem one_le_length_codeUnits (n : Nat) : 1 ≤ (codeUnits n).length := by
  rw [codeUnits]
  split <;> simp

theorem length_codeUnits_le (n : Nat) : (codeUnits n).length ≤ 2 := by
  rw [codeUnits]
  split <;> simp

theorem length_le_length_units (s : List Char) : s.length ≤ (units s).length := by
  induction s with
  | nil => exact le_rfl
  | cons c s ih =>
    have hfirst := one_le_length_codeUnits c.toNat
    rw [units_cons, List.length_append, List.length_cons]
    omega

/-- An escape uses up at least as much as it stands for. -/
def Uses (s : List Char) (u : List Nat) (rest : List Char) : Prop :=
  ∃ used, s = used ++ rest ∧ u.length ≤ (units used).length

theorem Uses.cons (h : Uses s u rest) (c : Char) : Uses (c :: s) u rest := by
  obtain ⟨used, rfl, hle⟩ := h
  refine ⟨c :: used, rfl, ?_⟩
  rw [units_cons, List.length_append]
  omega

theorem Uses.length_le (h : Uses s u rest) : rest.length ≤ s.length := by
  obtain ⟨used, rfl, -⟩ := h
  simp

theorem Uses.of_char (hu : u.length ≤ 1) : Uses (c :: s) u s :=
  ⟨[c], rfl, hu.trans (length_le_length_units [c])⟩

theorem uses_of_hexEscape? {count : Nat} (hcount : 1 ≤ count)
    (h : hexEscape? count s = some (u, rest)) : Uses s u rest := by
  obtain ⟨hlength, h⟩ := Option.ite_none_right_eq_some.1 h
  obtain ⟨n, -, hpair⟩ := Option.map_eq_some_iff.1 h
  obtain ⟨rfl, rfl⟩ := Prod.mk.inj hpair
  refine ⟨s.take count, (List.take_append_drop count s).symm, ?_⟩
  have hdigits := length_le_length_units (s.take count)
  rw [List.length_take_of_le hlength] at hdigits
  exact hcount.trans hdigits

theorem uses_of_bracedEscape? (h : bracedEscape? s = some (u, rest)) :
    Uses ('\x7b' :: s) u rest := by
  obtain ⟨⟨digits, rest'⟩, hcut, h⟩ := Option.bind_eq_some_iff.1 h
  obtain ⟨n, -, h⟩ := Option.bind_eq_some_iff.1 h
  obtain ⟨-, h⟩ := Option.ite_none_right_eq_some.1 h
  obtain ⟨rfl, rfl⟩ := Prod.mk.inj (Option.some.inj h)
  obtain ⟨rfl, -⟩ := cutAt?_eq_some_iff.1 hcut
  refine ⟨'\x7b' :: (digits ++ ['\x7d']), by simp, ?_⟩
  have hused := length_le_length_units ('\x7b' :: (digits ++ ['\x7d']))
  have htwo := length_codeUnits_le n
  simp only [List.length_cons, List.length_append, List.length_nil] at hused
  omega

theorem uses_of_escape? (h : escape? s = some (u, rest)) : Uses s u rest := by
  cases s with
  | nil => cases h
  | cons c s =>
    rw [escape?] at h
    split_ifs at h with hcrlf hline hx hu hbrace hdigit hzero
    · obtain ⟨rfl, rfl⟩ := Prod.mk.inj (Option.some.inj h)
      obtain ⟨s, rfl⟩ := List.head?_eq_some_iff.1 hcrlf.2
      exact (Uses.of_char (by simp)).cons c
    · obtain ⟨rfl, rfl⟩ := Prod.mk.inj (Option.some.inj h)
      exact .of_char (by simp)
    · exact (uses_of_hexEscape? (by decide) h).cons c
    · obtain ⟨s, rfl⟩ := List.head?_eq_some_iff.1 hbrace
      exact (uses_of_bracedEscape? h).cons c
    · exact (uses_of_hexEscape? (by decide) h).cons c
    · obtain ⟨rfl, rfl⟩ := Prod.mk.inj (Option.some.inj h)
      exact .of_char le_rfl
    · split at h
      · obtain ⟨rfl, rfl⟩ := Prod.mk.inj (Option.some.inj h)
        exact .of_char le_rfl
      · obtain ⟨rfl, rfl⟩ := Prod.mk.inj (Option.some.inj h)
        exact ⟨[c], rfl, by simp⟩

example : escape? "u\x7b1F600\x7d!".toList = some ([0xD83D, 0xDE00], ['!']) ∧
    escape? "x41'".toList = some ([0x41], ['\'']) ∧ escape? "012".toList = none := by decide

def readUnits? : List Char → Option (List Nat × List Char)
  | [] => none
  | c :: s =>
    if c = '\'' then some ([], s)
    else if c = '\n' ∨ c = '\r' then none
    else if c = '\\' then
      match h : escape? s with
      | some (u, rest) =>
        have := (uses_of_escape? h).length_le
        (readUnits? rest).map fun r => (u ++ r.1, r.2)
      | none => none
    else (readUnits? s).map fun r => (codeUnits c.toNat ++ r.1, r.2)
termination_by s => s.length

def readLiteral? : List Char → Option (List Nat × List Char)
  | '\'' :: s => readUnits? s
  | _ => none

/-! ### What is read -/

def marks : List Char := ['\'', '\\', '\n', '\r']

theorem readUnits?_quote (s : List Char) : readUnits? ('\'' :: s) = some ([], s) := by
  rw [readUnits?, if_pos rfl]

theorem readUnits?_break (h : c = '\n' ∨ c = '\r') : readUnits? (c :: s) = none := by
  have hquote : c ≠ '\'' := by rcases h with rfl | rfl <;> decide
  rw [readUnits?, if_neg hquote, if_pos h]

theorem readUnits?_escape_some (h : escape? s = some (u, rest)) :
    readUnits? ('\\' :: s) = (readUnits? rest).map fun r => (u ++ r.1, r.2) := by
  rw [readUnits?, if_neg (by decide), if_neg (by decide), if_pos rfl]
  split <;> simp_all

theorem readUnits?_of_notMem (h : c ∉ marks) :
    readUnits? (c :: s) = (readUnits? s).map fun r => (codeUnits c.toNat ++ r.1, r.2) := by
  simp only [marks, List.mem_cons, not_or] at h
  obtain ⟨hquote, hbackslash, hfeed, hreturn, -⟩ := h
  rw [readUnits?, if_neg hquote, if_neg (by simp [hfeed, hreturn]), if_neg hbackslash]

/-- What is read ends at a quote and is no longer than what it is read from, and if it is as long
nothing in it is escaped. -/
theorem exists_of_readUnits? (h : readUnits? s = some (v, rest)) :
    ∃ used, s = used ++ '\'' :: rest ∧ v.length ≤ (units used).length ∧
      (v.length = (units used).length → ∀ c ∈ used, c ∉ marks) := by
  fun_induction readUnits? s generalizing v with
  | case1 => cases h
  | case2 s =>
    obtain ⟨rfl, rfl⟩ := Prod.mk.inj (Option.some.inj h)
    exact ⟨[], rfl, le_rfl, fun _ => List.forall_mem_nil _⟩
  | case3 c s hquote hbreak => cases h
  | case4 s u after hescape hlength hquote hbreak ih =>
    obtain ⟨⟨v', rest⟩, hread, hpair⟩ := Option.map_eq_some_iff.1 h
    obtain ⟨rfl, rfl⟩ := Prod.mk.inj hpair
    obtain ⟨used', rfl, hle', -⟩ := ih hread
    obtain ⟨used, rfl, hle⟩ := uses_of_escape? hescape
    -- the backslash stands for nothing
    have hshorter : (u ++ v').length < (units ('\\' :: (used ++ used'))).length := by
      have hfirst := one_le_length_codeUnits '\\'.toNat
      simp only [units_cons, units_append, List.length_append]
      omega
    exact ⟨'\\' :: (used ++ used'), by simp, hshorter.le, fun heq => absurd heq hshorter.ne⟩
  | case5 s hescape hquote hbreak => cases h
  | case6 c s hquote hbreak hbackslash ih =>
    obtain ⟨⟨v', rest⟩, hread, hpair⟩ := Option.map_eq_some_iff.1 h
    obtain ⟨rfl, rfl⟩ := Prod.mk.inj hpair
    obtain ⟨used, rfl, hle, hplain⟩ := ih hread
    have hc : c ∉ marks := by
      obtain ⟨hfeed, hreturn⟩ := not_or.1 hbreak
      simp [marks, hquote, hbackslash, hfeed, hreturn]
    refine ⟨c :: used, rfl, ?_, fun heq => List.forall_mem_cons.2 ⟨hc, hplain ?_⟩⟩
    · simpa using hle
    · simpa using heq

theorem readUnits?_append (h : ∀ c ∈ s, c ∉ marks) :
    readUnits? (s ++ t) = (readUnits? t).map fun r => (units s ++ r.1, r.2) := by
  induction s with
  | nil => simp
  | cons c s ih =>
    obtain ⟨hc, hs⟩ := List.forall_mem_cons.1 h
    rw [List.cons_append, readUnits?_of_notMem hc, ih hs, Option.map_map]
    simp only [units_cons, List.append_assoc, Function.comp_def]

/-- A text between quotes is read as itself exactly if there is nothing in it to escape. -/
theorem readUnits?_eq_self_iff : readUnits? (s ++ '\'' :: rest) = some (units s, rest) ↔
    ∀ c ∈ s, c ∉ marks := by
  constructor
  · intro h
    obtain ⟨used, hs, -, hplain⟩ := exists_of_readUnits? h
    obtain rfl := List.append_cancel_right hs
    exact hplain rfl
  · intro h
    rw [readUnits?_append h, readUnits?_quote, Option.map_some, List.append_nil]

theorem readUnits?_escaped_cons (hfeed : c ≠ '\n') (hreturn : c ≠ '\r') :
    readUnits? (escaped c ++ s) = (readUnits? s).map fun r => (codeUnits c.toNat ++ r.1, r.2) := by
  rw [escaped]
  split_ifs with hbackslash hquote
  · subst hbackslash
    exact readUnits?_escape_some rfl
  · subst hquote
    exact readUnits?_escape_some rfl
  · exact readUnits?_of_notMem (by simp [marks, *])

/-- An escaped text is read as the text exactly if there is no line break in it. -/
theorem readUnits?_escaped_eq_iff :
    readUnits? (s.flatMap escaped ++ '\'' :: rest) = some (units s, rest) ↔
      '\n' ∉ s ∧ '\r' ∉ s := by
  induction s with
  | nil => simpa using readUnits?_quote rest
  | cons c s ih =>
    rw [List.flatMap_cons, List.append_assoc]
    by_cases hbreak : c = '\n' ∨ c = '\r'
    · have hsame : escaped c = [c] := by rcases hbreak with rfl | rfl <;> rfl
      rw [hsame, List.cons_append, readUnits?_break hbreak]
      rcases hbreak with rfl | rfl <;> simp
    · obtain ⟨hfeed, hreturn⟩ := not_or.1 hbreak
      rw [readUnits?_escaped_cons hfeed hreturn, units_cons]
      have htail : ((readUnits? (s.flatMap escaped ++ '\'' :: rest)).map fun r =>
          (codeUnits c.toNat ++ r.1, r.2)) = some (codeUnits c.toNat ++ units s, rest) ↔
            readUnits? (s.flatMap escaped ++ '\'' :: rest) = some (units s, rest) := by
        simp [Option.map_eq_some_iff]
      rw [htail, ih]
      simp [Ne.symm hfeed, Ne.symm hreturn]

end Sitewright.Script
