import Mathlib.Data.List.SplitBy
import Sitewright.Proofs.Text.Words

/-!
# Words, one character at a time

A text is cut into words from its first character on: a letter or digit either goes together with
the character after it or is a word of its own, and every other character is left out. The letters
and digits of the words are therefore those of the text, in order.
-/

namespace Sitewright

def wordRuns (together : Char → Char → Bool) (s : List Char) : List (List Char) :=
  (s.splitBy together).filter (·.all Char.isAlphanum)

variable {together : Char → Char → Bool} {a c : Char} {s t : List Char}

section Runs

theorem splitBy_cons_of_apart (h : ∀ b ∈ s.head?, together a b = false) :
    (a :: s).splitBy together = [a] :: s.splitBy together := by
  have happend := List.splitBy_append (r := together) (l := [a]) (m := s) (by simpa using h)
  rwa [List.singleton_append] at happend

theorem splitBy_cons_of_together (h : ∃ b ∈ s.head?, together a b = true) :
    (a :: s).splitBy together = (s.splitBy together).modifyHead (a :: ·) := by
  obtain ⟨b, hb, hab⟩ := h
  have hs : s ≠ [] := by rintro rfl; cases hb
  cases hruns : s.splitBy together with
  | nil => exact absurd (List.splitBy_eq_nil.1 hruns) hs
  | cons run runs =>
    obtain ⟨hflatten, hne, hchains, hcuts⟩ := List.splitBy_eq_iff.1 hruns
    have hrun : run ≠ [] := fun hnil => hne (hnil ▸ List.mem_cons_self)
    have hhead : run.head? = some b := by
      rw [← Option.mem_def.1 hb, hflatten, List.flatten_cons, List.head?_append_of_ne_nil _ hrun]
    obtain ⟨hchain, hchains⟩ := List.forall_mem_cons.1 hchains
    obtain ⟨hcut, hcuts⟩ := List.isChain_cons.1 hcuts
    rw [List.modifyHead_cons, List.splitBy_eq_iff]
    refine ⟨by rw [hflatten]; rfl, ?_, List.forall_mem_cons.2 ⟨?_, hchains⟩, ?_⟩
    · simpa using fun hmem => hne (List.mem_cons_of_mem _ hmem)
    · rw [List.isChain_cons, hhead]
      exact ⟨by simpa using hab, hchain⟩
    · refine List.isChain_cons.2 ⟨fun next hnext => ?_, hcuts⟩
      obtain ⟨_, hnonempty, hlast⟩ := hcut next hnext
      exact ⟨List.cons_ne_nil _ _, hnonempty, by rwa [List.getLast_cons hrun]⟩

/-- Where only letters and digits go together, a run of them has no other character. -/
theorem all_isAlphanum_of_isChain
    (htogether : ∀ a b, together a b = true → a.isAlphanum = true ∧ b.isAlphanum = true)
    (hc : c.isAlphanum = true) (h : (c :: s).IsChain fun a b => together a b = true) :
    (c :: s).all Char.isAlphanum = true := by
  induction s generalizing c with
  | nil => simpa using hc
  | cons d s ih =>
    obtain ⟨hcd, h⟩ := List.isChain_cons_cons.1 h
    rw [List.all_cons, hc, Bool.true_and]
    exact ih (htogether c d hcd).2 h

variable (htogether : ∀ a b, together a b = true → a.isAlphanum = true ∧ b.isAlphanum = true)
include htogether

theorem wordRuns_cons_of_not (ha : a.isAlphanum = false) :
    wordRuns together (a :: s) = wordRuns together s := by
  have hapart : ∀ b ∈ s.head?, together a b = false := fun b _ =>
    Bool.eq_false_iff.2 fun h => Bool.eq_false_iff.1 ha (htogether a b h).1
  rw [wordRuns, splitBy_cons_of_apart hapart, List.filter_cons_of_neg (by simp [ha]), wordRuns]

theorem wordRuns_cons_of_together (h : ∃ b ∈ s.head?, together a b = true) :
    wordRuns together (a :: s) = (wordRuns together s).modifyHead (a :: ·) := by
  rw [wordRuns, wordRuns, splitBy_cons_of_together h]
  obtain ⟨b, hb, hab⟩ := h
  cases hruns : s.splitBy together with
  | nil =>
    obtain rfl := List.splitBy_eq_nil.1 hruns
    cases hb
  | cons run runs =>
    obtain ⟨hflatten, hne, hchains, -⟩ := List.splitBy_eq_iff.1 hruns
    cases run with
    | nil => exact absurd List.mem_cons_self hne
    | cons d run =>
      rw [hflatten, List.flatten_cons, List.cons_append, List.head?_cons, Option.mem_some] at hb
      subst hb
      obtain ⟨ha, hd⟩ := htogether a d hab
      have hall := all_isAlphanum_of_isChain htogether hd (hchains _ List.mem_cons_self)
      have hlonger : (a :: d :: run).all Char.isAlphanum = true := by
        rw [List.all_cons, ha, hall]
        rfl
      rw [List.modifyHead_cons, List.filter_cons, if_pos hlonger, List.filter_cons, if_pos hall,
        List.modifyHead_cons]

omit htogether in
theorem mem_wordRuns {run : List Char} (h : run ∈ wordRuns together s) :
    run ≠ [] ∧ ∀ c ∈ run, c.isAlphanum = true := by
  obtain ⟨hmem, hall⟩ := List.mem_filter.1 h
  exact ⟨List.ne_nil_of_mem_splitBy hmem, List.all_eq_true.1 hall⟩

omit htogether in
theorem wordRuns_cons_of_apart (ha : a.isAlphanum = true)
    (h : ∀ b ∈ s.head?, together a b = false) :
    wordRuns together (a :: s) = [a] :: wordRuns together s := by
  rw [wordRuns, splitBy_cons_of_apart h, List.filter_cons_of_pos (by simp [ha]), wordRuns]

theorem wordRuns_ne_nil (hc : c.isAlphanum = true) : wordRuns together (c :: s) ≠ [] := by
  induction s generalizing c with
  | nil =>
    rw [wordRuns_cons_of_apart hc (by simp)]
    exact List.cons_ne_nil _ _
  | cons d s ih =>
    cases hcd : together c d with
    | false =>
      rw [wordRuns_cons_of_apart hc (by simpa using hcd)]
      exact List.cons_ne_nil _ _
    | true =>
      rw [wordRuns_cons_of_together htogether ⟨d, rfl, hcd⟩, Ne, List.modifyHead_eq_nil_iff]
      exact ih (htogether c d hcd).2

/-- The letters and digits of the runs are those of the text. -/
theorem flatten_wordRuns (s : List Char) :
    (wordRuns together s).flatten = s.filter Char.isAlphanum := by
  induction s with
  | nil => rfl
  | cons a s ih =>
    cases ha : a.isAlphanum with
    | false => rw [wordRuns_cons_of_not htogether ha, ih, List.filter_cons_of_neg (by simp [ha])]
    | true =>
      rw [List.filter_cons_of_pos ha, ← ih]
      by_cases hnext : ∃ b ∈ s.head?, together a b = true
      · rw [wordRuns_cons_of_together htogether hnext]
        obtain ⟨b, hb, hab⟩ := hnext
        cases s with
        | nil => cases hb
        | cons d s =>
          obtain rfl := Option.some.inj hb
          obtain ⟨run, runs, hruns⟩ := List.exists_cons_of_ne_nil
            (wordRuns_ne_nil (s := s) htogether (htogether a d hab).2)
          rw [hruns, List.modifyHead_cons]
          rfl
      · rw [wordRuns_cons_of_apart ha (by simpa using hnext)]
        rfl

theorem wordRuns_ne_nil_of_mem (hmem : c ∈ s) (hc : c.isAlphanum = true) :
    wordRuns together s ≠ [] := fun hnil => by
  have hkept : c ∈ s.filter Char.isAlphanum := List.mem_filter.2 ⟨hmem, hc⟩
  rw [← flatten_wordRuns htogether, hnil] at hkept
  cases hkept

theorem wordRuns_append_of_not (h : ∀ c ∈ t, c.isAlphanum = false) :
    wordRuns together (t ++ s) = wordRuns together s := by
  induction t with
  | nil => rfl
  | cons c t ih =>
    obtain ⟨hc, ht⟩ := List.forall_mem_cons.1 h
    rw [List.cons_append, wordRuns_cons_of_not htogether hc, ih ht]

end Runs

section Names

theorem isAlphanum_of_inOneWord (a b : Char) (h : inOneWord a b = true) :
    a.isAlphanum = true ∧ b.isAlphanum = true := by
  rw [inOneWord, Bool.and_eq_true, Bool.and_eq_true] at h
  exact h.1

theorem nameWords_eq (s : List Char) :
    nameWords s = (wordRuns inOneWord s).map (·.map Char.toLower) := rfl

theorem nameWords_cons_of_together (h : ∃ b ∈ s.head?, inOneWord a b = true) :
    nameWords (a :: s) = (nameWords s).modifyHead (a.toLower :: ·) := by
  rw [nameWords_eq, wordRuns_cons_of_together isAlphanum_of_inOneWord h, nameWords_eq]
  cases wordRuns inOneWord s <;> rfl

theorem nameWords_cons_of_apart (ha : a.isAlphanum = true)
    (h : ∀ b ∈ s.head?, inOneWord a b = false) :
    nameWords (a :: s) = [a.toLower] :: nameWords s :=
  congrArg (List.map _) (wordRuns_cons_of_apart ha h)

theorem nameWords_cons_ne_nil (ha : a.isAlphanum = true) : nameWords (a :: s) ≠ [] := fun h =>
  wordRuns_ne_nil isAlphanum_of_inOneWord ha (List.map_eq_nil_iff.1 h)

/-- The words of a name have its letters and digits, in lower case. -/
theorem flatten_nameWords (s : List Char) :
    (nameWords s).flatten = (s.filter Char.isAlphanum).map Char.toLower := by
  rw [← flatten_wordRuns isAlphanum_of_inOneWord s, List.map_flatten]
  rfl

theorem nameWords_append_of_not (h : ∀ c ∈ t, c.isAlphanum = false) :
    nameWords (t ++ s) = nameWords s :=
  congrArg (List.map _) (wordRuns_append_of_not isAlphanum_of_inOneWord h)

end Names

section JoinedRuns

theorem toList_dashCase_eq_map (name : String) : (dashCase name).toList =
    (hyphenated (wordRuns inOneWord name.toList)).map Char.toLower := by
  rw [map_hyphenated]
  exact String.toList_ofList

theorem hyphen_notMem_wordRuns : ∀ run ∈ wordRuns together s, '-' ∉ run :=
  fun _ hrun hhyphen => Bool.false_ne_true ((mem_wordRuns hrun).2 '-' hhyphen)

theorem hyphenated_wordRuns_of_apart (ha : a.isAlphanum = true)
    (h : ∀ b ∈ s.head?, together a b = false) (hne : wordRuns together s ≠ []) :
    hyphenated (wordRuns together (a :: s)) = a :: '-' :: hyphenated (wordRuns together s) := by
  rw [wordRuns_cons_of_apart ha h, hyphenated_cons hne, List.singleton_append]

variable (htogether : ∀ a b, together a b = true → a.isAlphanum = true ∧ b.isAlphanum = true)
include htogether

theorem hyphenated_wordRuns_of_together (h : ∃ b ∈ s.head?, together a b = true) :
    hyphenated (wordRuns together (a :: s)) = a :: hyphenated (wordRuns together s) := by
  obtain ⟨b, hb, hab⟩ := h
  have hne : wordRuns together s ≠ [] :=
    wordRuns_ne_nil_of_mem htogether (List.mem_of_mem_head? hb) (htogether a b hab).2
  rw [wordRuns_cons_of_together htogether ⟨b, hb, hab⟩, hyphenated_modifyHead hne]

theorem withoutHyphens_wordRuns (s : List Char) :
    withoutHyphens (hyphenated (wordRuns together s)) = s.filter Char.isAlphanum := by
  rw [withoutHyphens_hyphenated hyphen_notMem_wordRuns, flatten_wordRuns htogether]

theorem mem_hyphenated_wordRuns (h : c ∈ hyphenated (wordRuns together s)) : c = '-' ∨ c ∈ s := by
  by_cases hc : c = '-'
  · exact .inl hc
  · have hkept : c ∈ withoutHyphens (hyphenated (wordRuns together s)) :=
      List.mem_filter.2 ⟨h, decide_eq_true hc⟩
    rw [withoutHyphens_wordRuns htogether] at hkept
    exact .inr (List.mem_of_mem_filter hkept)

end JoinedRuns

section CamelCase

def dashedChar (c : Char) : List Char := if c.isUpper then ['-', c.toLower] else [c]

/-- A name that begins with a small letter and whose capitals mark where its words begin. -/
structure IsCamelCase (s : String) : Prop where
  begins : s.toList.head?.any Char.isLower = true
  chars : ∀ c ∈ s.toList, c.isAlphanum = true
  capitals : s.toList.IsChain fun a b => a.isUpper = true → b.isUpper = false

theorem inOneWord_of_not_isUpper (ha : a.isAlphanum = true) (hc : c.isAlphanum = true)
    (h : c.isUpper = false) : inOneWord a c = true := by
  simp [inOneWord, ha, hc, h]

theorem inOneWord_of_isUpper (ha : a.isAlphanum = true) (hupper : a.isUpper = false)
    (h : c.isUpper = true) : inOneWord a c = false := by
  have hsmall : a.isLower = true ∨ a.isDigit = true := by
    simpa [Char.isAlphanum, Char.isAlpha, hupper] using ha
  rcases hsmall with hsmall | hsmall <;> simp [inOneWord, hsmall, h]

/-- Behind its first character, a camel-case name has a hyphen before each capital. -/
theorem hyphenated_nameWords (hchars : ∀ d ∈ c :: s, d.isAlphanum = true)
    (hcapitals : (c :: s).IsChain fun a b => a.isUpper = true → b.isUpper = false) :
    hyphenated (nameWords (c :: s)) = c.toLower :: s.flatMap dashedChar := by
  induction s generalizing c with
  | nil => rw [nameWords_cons_of_apart (hchars c (by simp)) (by simp)]; exact hyphenated_singleton _
  | cons d s ih =>
    obtain ⟨hc, hchars⟩ := List.forall_mem_cons.1 hchars
    obtain ⟨hcd, hcapitals⟩ := List.isChain_cons_cons.1 hcapitals
    have hd := hchars d List.mem_cons_self
    have hne : nameWords (d :: s) ≠ [] := nameWords_cons_ne_nil hd
    have hrest := ih hchars hcapitals
    rw [List.flatMap_cons, dashedChar]
    cases hupper : d.isUpper with
    | true =>
      have hsmall : c.isUpper = false := Bool.eq_false_iff.2 fun h => by simp [hcd h] at hupper
      have hapart : ∀ b ∈ (d :: s).head?, inOneWord c b = false := by
        simpa using inOneWord_of_isUpper hc hsmall hupper
      rw [nameWords_cons_of_apart hc hapart, hyphenated_cons hne, hrest, if_pos rfl]
      rfl
    | false =>
      have htogether : ∃ b ∈ (d :: s).head?, inOneWord c b = true :=
        ⟨d, rfl, inOneWord_of_not_isUpper hc hd hupper⟩
      have hlower : d.toLower = d := Char.toLower_eq_of_not_isUpper (Bool.eq_false_iff.1 hupper)
      rw [nameWords_cons_of_together htogether, hyphenated_modifyHead hne, hrest, hlower,
        if_neg Bool.false_ne_true]
      rfl

theorem IsCamelCase.toList_dashCase {s : String} (h : IsCamelCase s) :
    (dashCase s).toList = s.toList.flatMap dashedChar := by
  obtain ⟨hbegins, hchars, hcapitals⟩ := h
  rw [dashCase, String.toList_ofList]
  cases hs : s.toList with
  | nil => rw [hs] at hbegins; cases hbegins
  | cons c rest =>
    rw [hs] at hbegins hchars hcapitals
    have hupper : ¬ c.isUpper = true := Char.not_isUpper_of_isLower hbegins
    rw [hyphenated_nameWords hchars hcapitals, List.flatMap_cons, dashedChar, if_neg hupper,
      Char.toLower_eq_of_not_isUpper hupper]
    rfl

end CamelCase

end Sitewright
