import Mathlib
import Sitewright.Text.Basic

/-!
# Words joined by hyphens

The words of a name are runs of small letters and digits. Joined by single hyphens they are cut
again at the hyphens, so the texts that `dashCase` gives are exactly those that it leaves as they
are.
-/

namespace Sitewright

structure IsWord (word : List Char) : Prop where
  ne_nil : word ≠ []
  chars : ∀ c ∈ word, c.isLower ∨ c.isDigit

/-- Words joined by single hyphens. -/
def IsDashed (s : String) : Prop :=
  ∃ words : List (List Char), (∀ word ∈ words, IsWord word) ∧ s.toList = hyphenated words

def withoutHyphens (s : List Char) : List Char := s.filter (· ≠ '-')

variable {c : Char} {word name : List Char} {words : List (List Char)} {s : String}

section Characters

theorem not_isUpper_of_isDigit (h : c.isDigit) : ¬ c.isUpper := by
  simp only [Char.isDigit, Char.isUpper, Bool.and_eq_true, decide_eq_true_eq, ge_iff_le,
    UInt32.le_iff_toNat_le] at h ⊢
  have hdigit : '9'.val.toNat = 57 := rfl
  have hupper : 'A'.val.toNat = 65 := rfl
  omega

theorem toLower_of_isAlphanum (h : c.isAlphanum) : c.toLower.isLower ∨ c.toLower.isDigit := by
  rcases Bool.or_eq_true_iff.1 h with h | h
  · exact .inl (by simpa using h)
  · exact .inr (by rwa [Char.toLower_eq_of_not_isUpper (not_isUpper_of_isDigit h)])

theorem isAlphanum_of_word (h : c.isLower ∨ c.isDigit) : c.isAlphanum := by
  rcases h with h | h <;> simp [Char.isAlphanum, Char.isAlpha, h]

theorem not_isUpper_of_word (h : c.isLower ∨ c.isDigit) : ¬ c.isUpper :=
  h.elim Char.not_isUpper_of_isLower not_isUpper_of_isDigit

theorem inOneWord_hyphen (c : Char) : inOneWord c '-' = false ∧ inOneWord '-' c = false := by
  simp [inOneWord, show '-'.isAlphanum = false from rfl]

theorem ne_hyphen_of_isAlphanum (h : c.isAlphanum = true) : c ≠ '-' := by
  rintro rfl
  cases h

theorem map_toLower_eq_self (h : ∀ c ∈ name, ¬ c.isUpper) : name.map Char.toLower = name := by
  conv_rhs => rw [← List.map_id name]
  exact List.map_congr_left fun c hc => Char.toLower_eq_of_not_isUpper (h c hc)

end Characters

section Hyphens

theorem withoutHyphens_cons (h : c ≠ '-') : withoutHyphens (c :: name) = c :: withoutHyphens name :=
  List.filter_cons_of_pos (decide_eq_true h)

theorem withoutHyphens_hyphen (s : List Char) : withoutHyphens ('-' :: s) = withoutHyphens s := rfl

theorem withoutHyphens_append (s t : List Char) :
    withoutHyphens (s ++ t) = withoutHyphens s ++ withoutHyphens t := List.filter_append ..

theorem hyphenated_singleton (word : List Char) : hyphenated [word] = word := by
  simp [hyphenated]

theorem hyphenated_cons (h : words ≠ []) (word : List Char) :
    hyphenated (word :: words) = word ++ '-' :: hyphenated words := by
  cases words with
  | nil => exact absurd rfl h
  | cons second rest => simp [hyphenated, List.intercalate_cons_cons]

theorem hyphenated_modifyHead (h : words ≠ []) (c : Char) :
    hyphenated (words.modifyHead (c :: ·)) = c :: hyphenated words := by
  cases words with
  | nil => exact absurd rfl h
  | cons first rest =>
    cases rest with
    | nil => simp [hyphenated]
    | cons second rest => simp [hyphenated, List.intercalate_cons_cons]

theorem map_hyphenated (words : List (List Char)) :
    (hyphenated words).map Char.toLower = hyphenated (words.map (·.map Char.toLower)) := by
  induction words with
  | nil => rfl
  | cons word words ih =>
    cases words with
    | nil => simp [hyphenated_singleton]
    | cons second rest =>
      rw [hyphenated_cons (List.cons_ne_nil second rest), List.map_append, List.map_cons, ih]
      exact (hyphenated_cons (List.cons_ne_nil _ _) _).symm

theorem withoutHyphens_hyphenated (h : ∀ word ∈ words, '-' ∉ word) :
    withoutHyphens (hyphenated words) = words.flatten := by
  induction words with
  | nil => rfl
  | cons word words ih =>
    obtain ⟨hword, hwords⟩ := List.forall_mem_cons.1 h
    have hkept : withoutHyphens word = word := List.filter_eq_self.2 fun c hc =>
      decide_eq_true fun heq => hword (heq ▸ hc)
    cases words with
    | nil => rw [hyphenated_singleton, hkept, List.flatten_singleton]
    | cons second rest =>
      rw [hyphenated_cons (List.cons_ne_nil second rest), withoutHyphens_append, hkept,
        withoutHyphens_hyphen, ih hwords, ← List.flatten_cons]

theorem head?_hyphenated (h : ∀ word ∈ words, word ≠ []) :
    (hyphenated words).head? = words.flatten.head? := by
  cases words with
  | nil => rfl
  | cons word words =>
    have hword := h word List.mem_cons_self
    cases words with
    | nil => rw [hyphenated_singleton, List.flatten_singleton]
    | cons second rest =>
      rw [hyphenated_cons (List.cons_ne_nil second rest), List.flatten_cons,
        List.head?_append_of_ne_nil _ hword, List.head?_append_of_ne_nil _ hword]

theorem getLast?_hyphenated (h : ∀ word ∈ words, word ≠ []) :
    (hyphenated words).getLast? = words.flatten.getLast? := by
  induction words with
  | nil => rfl
  | cons word words ih =>
    have hwords := (List.forall_mem_cons.1 h).2
    cases words with
    | nil => rw [hyphenated_singleton, List.flatten_singleton]
    | cons second rest =>
      have hsecond : second ≠ [] := hwords second List.mem_cons_self
      have hne : (second :: rest).flatten ≠ [] := by simp [hsecond]
      rw [hyphenated_cons (List.cons_ne_nil second rest), List.flatten_cons, List.getLast?_append,
        List.getLast?_append, List.getLast?_cons, ih hwords, List.getLast?_eq_some_getLast hne]
      rfl

end Hyphens

theorem isWord_of_mem_nameWords (h : word ∈ nameWords name) : IsWord word := by
  obtain ⟨run, hrun, rfl⟩ := List.mem_map.1 h
  obtain ⟨hmem, hall⟩ := List.mem_filter.1 hrun
  refine ⟨by simpa using List.ne_nil_of_mem_splitBy hmem, fun c hc => ?_⟩
  obtain ⟨d, hd, rfl⟩ := List.mem_map.1 hc
  exact toLower_of_isAlphanum (List.all_eq_true.1 hall d hd)

theorem isDashed_dashCase (name : String) : IsDashed (dashCase name) :=
  ⟨nameWords name.toList, fun _ => isWord_of_mem_nameWords, String.toList_ofList⟩

theorem IsWord.isChain (h : IsWord word) : word.IsChain fun a b => inOneWord a b = true := by
  refine (List.pairwise_of_forall_mem_list fun a ha b hb => ?_).isChain
  simp [inOneWord, isAlphanum_of_word (h.chars a ha), isAlphanum_of_word (h.chars b hb),
    not_isUpper_of_word (h.chars b hb)]

theorem IsWord.all_isAlphanum (h : IsWord word) : word.all Char.isAlphanum = true :=
  List.all_eq_true.2 fun c hc => isAlphanum_of_word (h.chars c hc)

theorem IsWord.map_toLower (h : IsWord word) : word.map Char.toLower = word :=
  map_toLower_eq_self fun c hc => not_isUpper_of_word (h.chars c hc)

theorem mem_hyphens (h : word ∈ words.intersperse ['-']) : word = ['-'] ∨ word ∈ words := by
  induction words with
  | nil => exact .inr h
  | cons first rest ih =>
    cases rest with
    | nil => exact .inr h
    | cons second rest =>
      rw [List.intersperse_cons_cons, List.mem_cons, List.mem_cons] at h
      rcases h with rfl | rfl | h
      · exact .inr List.mem_cons_self
      · exact .inl rfl
      · exact (ih h).imp_right (List.mem_cons_of_mem _)

/-- A hyphen goes together with neither of the words beside it. -/
theorem isChain_hyphens (h : ∀ word ∈ words, IsWord word) :
    (words.intersperse ['-']).IsChain fun a b =>
      ∃ ha hb, inOneWord (a.getLast ha) (b.head hb) = false := by
  induction words with
  | nil => exact List.isChain_nil
  | cons first rest ih =>
    cases rest with
    | nil => exact List.isChain_singleton _
    | cons second rest =>
      have hhead : ((second :: rest).intersperse ['-']).head? = some second := by
        cases rest <;> rfl
      rw [List.intersperse_cons_cons, List.isChain_cons_cons, List.isChain_cons, hhead]
      refine ⟨⟨(h first List.mem_cons_self).ne_nil, by simp, (inOneWord_hyphen _).1⟩, ?_,
        ih fun word hword => h word (List.mem_cons_of_mem _ hword)⟩
      rintro word ⟨⟩
      exact ⟨by simp, (h second (by simp)).ne_nil, (inOneWord_hyphen _).2⟩

theorem splitBy_hyphenated (h : ∀ word ∈ words, IsWord word) :
    (hyphenated words).splitBy inOneWord = words.intersperse ['-'] := by
  refine List.splitBy_flatten (fun hnil => ?_) (fun word hword => ?_) (isChain_hyphens h)
  · rcases mem_hyphens hnil with hnil | hnil
    · simp at hnil
    · exact (h [] hnil).ne_nil rfl
  · rcases mem_hyphens hword with rfl | hword
    · exact List.isChain_singleton _
    · exact (h word hword).isChain

theorem filter_hyphens (h : ∀ word ∈ words, IsWord word) :
    (words.intersperse ['-']).filter (·.all Char.isAlphanum) = words := by
  induction words with
  | nil => rfl
  | cons first rest ih =>
    have hfirst := (h first List.mem_cons_self).all_isAlphanum
    cases rest with
    | nil => simp [hfirst]
    | cons second rest =>
      have hrest := ih fun word hword => h word (List.mem_cons_of_mem _ hword)
      rw [List.intersperse_cons_cons, List.filter_cons, if_pos hfirst, List.filter_cons,
        if_neg (by decide), hrest]

theorem nameWords_hyphenated (h : ∀ word ∈ words, IsWord word) :
    nameWords (hyphenated words) = words := by
  rw [nameWords, splitBy_hyphenated h, filter_hyphens h]
  conv_rhs => rw [← List.map_id words]
  exact List.map_congr_left fun word hword => (h word hword).map_toLower

theorem dashCase_eq_self_iff : dashCase s = s ↔ IsDashed s := by
  refine ⟨fun h => h ▸ isDashed_dashCase s, ?_⟩
  rintro ⟨words, hwords, hs⟩
  rw [dashCase, hs, nameWords_hyphenated hwords, ← hs, String.ofList_toList]

instance : Decidable (IsDashed s) := decidable_of_iff (dashCase s = s) dashCase_eq_self_iff

theorem IsDashed.head?_ne_hyphen (h : IsDashed s) : s.toList.head? ≠ some '-' := by
  obtain ⟨words, hwords, hs⟩ := h
  rw [hs, head?_hyphenated fun word hword => (hwords word hword).ne_nil]
  intro hhyphen
  obtain ⟨word, hword, hmem⟩ := List.mem_flatten.1 (List.mem_of_head? hhyphen)
  exact absurd ((hwords word hword).chars '-' hmem) (by decide)

end Sitewright
