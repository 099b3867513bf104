import Mathlib.Logic.Function.Basic
import Sitewright.Proofs.Text.Lines

/-!
# Texts that can be read in one way

Two reasons why a text determines what it was put together from: a part ends where the first
character of another class stands, and of several codes none goes on where another one ends.
-/

namespace Sitewright

section Lists

variable {α β : Type} {a b x y : List α} {c d : α}

/-- Where the members of one class end is determined. -/
theorem append_cons_inj {p : α → Prop} (ha : ∀ e ∈ a, p e) (hb : ∀ e ∈ b, p e) (hc : ¬ p c)
    (hd : ¬ p d) (h : a ++ c :: x = b ++ d :: y) : a = b ∧ c :: x = d :: y := by
  induction a generalizing b with
  | nil =>
    cases b with
    | nil => exact ⟨rfl, h⟩
    | cons e b =>
      obtain ⟨rfl, -⟩ := List.cons.inj h
      exact absurd (hb _ List.mem_cons_self) hc
  | cons e a ih =>
    cases b with
    | nil =>
      obtain ⟨rfl, -⟩ := List.cons.inj h
      exact absurd (ha _ List.mem_cons_self) hd
    | cons e' b =>
      obtain ⟨rfl, hrest⟩ := List.cons.inj h
      obtain ⟨rfl, hsame⟩ :=
        ih (List.forall_mem_cons.1 ha).2 (List.forall_mem_cons.1 hb).2 hrest
      exact ⟨rfl, hsame⟩

/-- Codes of which none is empty and none goes on where another one ends. -/
structure IsPrefixCode (code : α → List β) : Prop where
  ne_nil : ∀ a, code a ≠ []
  inj : ∀ {a b : α} {x y : List β}, code a ++ x = code b ++ y → a = b

theorem IsPrefixCode.flatMap_injective {code : α → List β} (h : IsPrefixCode code) :
    Function.Injective (List.flatMap code) := by
  intro s t heq
  induction s generalizing t with
  | nil =>
    cases t with
    | nil => rfl
    | cons b t => exact absurd (List.append_eq_nil_iff.1 heq.symm).1 (h.ne_nil b)
  | cons a s ih =>
    cases t with
    | nil => exact absurd (List.append_eq_nil_iff.1 heq).1 (h.ne_nil a)
    | cons b t =>
      rw [List.flatMap_cons, List.flatMap_cons] at heq
      obtain rfl := h.inj heq
      rw [ih (List.append_cancel_left heq)]

end Lists

/-- A text written character by character in a prefix code. -/
theorem IsPrefixCode.ofList_flatMap_injective {code : Char → List Char} (h : IsPrefixCode code) :
    Function.Injective fun s : String => String.ofList (s.toList.flatMap code) := by
  intro s t heq
  have hlists : s.toList.flatMap code = t.toList.flatMap code := String.ofList_injective heq
  exact String.toList_injective (h.flatMap_injective hlists)

def cutAt? (stop : Char) : List Char → Option (List Char × List Char)
  | [] => none
  | c :: s => if c = stop then some ([], s) else (cutAt? stop s).map fun r => (c :: r.1, r.2)

theorem cutAt?_eq_some_iff {stop : Char} {s before after : List Char} :
    cutAt? stop s = some (before, after) ↔ s = before ++ stop :: after ∧ stop ∉ before := by
  constructor
  · intro h
    induction s generalizing before with
    | nil => cases h
    | cons c s ih =>
      rw [cutAt?] at h
      split at h
      · next hc =>
        obtain ⟨rfl, rfl⟩ := Prod.mk.inj (Option.some.inj h)
        exact ⟨by rw [hc, List.nil_append], List.not_mem_nil⟩
      · next hc =>
        obtain ⟨⟨front, rest⟩, hcut, hpair⟩ := Option.map_eq_some_iff.1 h
        obtain ⟨rfl, rfl⟩ := Prod.mk.inj hpair
        obtain ⟨rfl, hfront⟩ := ih hcut
        exact ⟨rfl, List.not_mem_cons_of_ne_of_not_mem (Ne.symm hc) hfront⟩
  · rintro ⟨rfl, hstop⟩
    induction before with
    | nil => rw [List.nil_append, cutAt?, if_pos rfl]
    | cons c before ih =>
      rw [List.cons_append, cutAt?, if_neg (List.ne_of_not_mem_cons hstop).symm,
        ih (List.not_mem_of_not_mem_cons hstop), Option.map_some]

section Trimming

variable {s : String} {a spaces : List Char} {c e : Char}

/-- Trimming a text that ends with a line feed after a character that is not blank. -/
theorem toList_trimEnd (hs : s.toList = a ++ [e, '\n']) (he : isBlank e = false) :
    (trimEnd s).toList = a ++ [e] := by
  have hsplit : a ++ [e, '\n'] = (a ++ [e]) ++ ['\n'] := by simp
  rw [trimEnd, String.toList_ofList, hs, hsplit, dropEndWhile_concat_of_pos (by decide),
    dropEndWhile_concat_of_neg he]

/-- Trimming such a text that is indented. -/
theorem toList_trimBoth (hs : s.toList = spaces ++ c :: (a ++ [e, '\n']))
    (hspaces : ∀ q ∈ spaces, isBlank q = true) (hc : isBlank c = false) (he : isBlank e = false) :
    (trimBoth s).toList = c :: (a ++ [e]) := by
  have hdropped : s.toList.dropWhile isBlank = c :: (a ++ [e, '\n']) := by
    rw [hs, List.dropWhile_append_of_pos hspaces, List.dropWhile_cons_of_neg (by simp [hc])]
  have hends : (String.ofList (c :: (a ++ [e, '\n']))).toList = (c :: a) ++ [e, '\n'] := by simp
  have htrimmed := toList_trimEnd hends he
  rw [trimEnd, String.toList_ofList, String.toList_ofList] at htrimmed
  rw [trimBoth, String.toList_ofList, hdropped, htrimmed, List.cons_append]

end Trimming

end Sitewright
