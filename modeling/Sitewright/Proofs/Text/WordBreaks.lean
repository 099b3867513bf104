import Sitewright.Proofs.Text.Identifiers
import Sitewright.Proofs.Text.Passes

/-!
# Where words break

The dashed form of a name has its letters and digits in lower case. Between two of them that follow
each other it has a hyphen if and only if other characters stand between them in the name or they
are a border. A slug is the dashed form of the name in lower case, so that both leave a dashed text
as it is.
-/

namespace Sitewright

/-- Two letters or digits of a text, in their order, with no other between them. -/
structure Neighbours (s before : List Char) (a : Char) (between : List Char) (b : Char)
    (after : List Char) : Prop where
  eq : s = before ++ a :: (between ++ b :: after)
  first : a.isAlphanum = true
  second : b.isAlphanum = true
  apart : ∀ c ∈ between, c.isAlphanum = false

/-- Whether one word ends and another begins between two neighbours: other characters stand between
them, or a capital follows a small letter or a digit directly. -/
def IsBreak (a : Char) (between : List Char) (b : Char) : Prop :=
  between ≠ [] ∨ (a.isLower = true ∨ a.isDigit = true) ∧ b.isUpper = true

instance (a : Char) (between : List Char) (b : Char) : Decidable (IsBreak a between b) :=
  inferInstanceAs (Decidable (_ ∨ _))

def smallAlphanums (s : List Char) : List Char := (s.filter Char.isAlphanum).map Char.toLower

variable {together : Char → Char → Bool} {a b c : Char} {s before between after : List Char}
  {name t : String}

section Runs

variable (htogether : ∀ a b, together a b = true → a.isAlphanum = true ∧ b.isAlphanum = true)
include htogether

/-- The joined runs of a text end with those of its part from any letter or digit on. -/
theorem exists_hyphenated_append (ha : a.isAlphanum = true) (before s : List Char) :
    ∃ front, withoutHyphens front = before.filter Char.isAlphanum ∧
      hyphenated (wordRuns together (before ++ a :: s)) =
        front ++ hyphenated (wordRuns together (a :: s)) := by
  induction before with
  | nil => exact ⟨[], rfl, rfl⟩
  | cons c before ih =>
    obtain ⟨front, hfront, hrest⟩ := ih
    rw [List.cons_append]
    cases hc : c.isAlphanum with
    | false =>
      refine ⟨front, ?_, ?_⟩
      · rw [hfront, List.filter_cons_of_neg (by simp [hc])]
      · rw [wordRuns_cons_of_not htogether hc, hrest]
    | true =>
      -- behind `c` its run goes on, or a hyphen ends it, since another run follows
      have hne : wordRuns together (before ++ a :: s) ≠ [] :=
        wordRuns_ne_nil_of_mem htogether (by simp) ha
      by_cases hnext : ∃ d ∈ (before ++ a :: s).head?, together c d = true
      · refine ⟨c :: front, ?_, ?_⟩
        · rw [withoutHyphens_cons (ne_hyphen_of_isAlphanum hc), hfront, List.filter_cons_of_pos hc]
        · rw [hyphenated_wordRuns_of_together htogether hnext, hrest, List.cons_append]
      · refine ⟨c :: '-' :: front, ?_, ?_⟩
        · rw [withoutHyphens_cons (ne_hyphen_of_isAlphanum hc), withoutHyphens_hyphen, hfront,
            List.filter_cons_of_pos hc]
        · rw [hyphenated_wordRuns_of_apart hc (by simpa using hnext) hne, hrest]
          rfl

theorem exists_hyphenated_cons (hb : b.isAlphanum = true) (s : List Char) :
    ∃ back, withoutHyphens back = s.filter Char.isAlphanum ∧
      hyphenated (wordRuns together (b :: s)) = b :: back := by
  have hletters := withoutHyphens_wordRuns htogether (b :: s)
  have hhead : (hyphenated (wordRuns together (b :: s))).head? = some b := by
    rw [head?_hyphenated fun run hrun => (mem_wordRuns hrun).1, flatten_wordRuns htogether,
      List.filter_cons_of_pos hb, List.head?_cons]
  obtain ⟨back, hback⟩ := List.head?_eq_some_iff.1 hhead
  rw [hback, withoutHyphens_cons (ne_hyphen_of_isAlphanum hb), List.filter_cons_of_pos hb]
    at hletters
  exact ⟨back, (List.cons.inj hletters).2, hback⟩

/-- Two neighbours belong to one run if they stand side by side and go together. -/
theorem hyphenated_between (ha : a.isAlphanum = true) (hb : b.isAlphanum = true)
    (hbetween : ∀ c ∈ between, c.isAlphanum = false) (s : List Char) :
    hyphenated (wordRuns together (a :: (between ++ b :: s))) =
      a :: ((if between = [] ∧ together a b = true then [] else ['-']) ++
        hyphenated (wordRuns together (b :: s))) := by
  have hne : wordRuns together (between ++ b :: s) ≠ [] :=
    wordRuns_ne_nil_of_mem htogether (by simp) hb
  cases between with
  | nil =>
    rw [List.nil_append] at hne ⊢
    cases hab : together a b with
    | true =>
      rw [hyphenated_wordRuns_of_together htogether ⟨b, rfl, hab⟩, if_pos ⟨rfl, rfl⟩,
        List.nil_append]
    | false =>
      rw [hyphenated_wordRuns_of_apart ha (by simpa using hab) hne,
        if_neg fun h => Bool.false_ne_true h.2, List.singleton_append]
  | cons c between =>
    have hc : c.isAlphanum = false := hbetween c List.mem_cons_self
    have hapart : ∀ d ∈ (c :: between ++ b :: s).head?, together a d = false := by
      rintro d ⟨⟩
      exact Bool.eq_false_iff.2 fun h => Bool.eq_false_iff.1 hc (htogether a c h).2
    rw [hyphenated_wordRuns_of_apart ha hapart hne, wordRuns_append_of_not htogether hbetween,
      if_neg fun h => List.cons_ne_nil c between h.1, List.singleton_append]

theorem exists_hyphenated_neighbours (h : Neighbours s before a between b after) :
    ∃ front back, hyphenated (wordRuns together s) =
        front ++ a :: ((if between = [] ∧ together a b = true then [] else ['-']) ++ b :: back) ∧
      withoutHyphens front = before.filter Char.isAlphanum ∧
      withoutHyphens back = after.filter Char.isAlphanum := by
  obtain ⟨front, hfront, hs⟩ :=
    exists_hyphenated_append htogether h.first before (between ++ b :: after)
  obtain ⟨back, hback, hafter⟩ := exists_hyphenated_cons htogether h.second after
  refine ⟨front, back, ?_, hfront, hback⟩
  rw [h.eq, hs, hyphenated_between htogether h.first h.second h.apart, hafter]

end Runs

section DashedForms

theorem toLower_eq_hyphen_iff : c.toLower = '-' ↔ c = '-' := by
  refine ⟨fun h => ?_, by rintro rfl; rfl⟩
  have hc : c.isAlphanum = false := by rw [← isAlphanum_toLower, h]; rfl
  have hupper : ¬ c.isUpper = true := fun hupper => by
    simp [Char.isAlphanum, Char.isAlpha, hupper] at hc
  rwa [Char.toLower_eq_of_not_isUpper hupper] at h

theorem withoutHyphens_map_toLower (s : List Char) :
    withoutHyphens (s.map Char.toLower) = (withoutHyphens s).map Char.toLower := by
  rw [withoutHyphens, List.filter_map, withoutHyphens]
  refine congrArg _ (List.filter_congr fun c _ => ?_)
  simp [toLower_eq_hyphen_iff]

theorem withoutHyphens_dashCase (name : String) :
    withoutHyphens (dashCase name).toList = smallAlphanums name.toList := by
  rw [toList_dashCase_eq_map, withoutHyphens_map_toLower,
    withoutHyphens_wordRuns isAlphanum_of_inOneWord, smallAlphanums]

theorem Neighbours.isBreak_iff (h : Neighbours s before a between b after) :
    IsBreak a between b ↔ ¬ (between = [] ∧ inOneWord a b = true) := by
  have hrun : inOneRun a b = true := by rw [inOneRun, h.first, h.second]; rfl
  rw [IsBreak, ← isBorder_eq_true_iff, inOneWord_eq, hrun, Bool.true_and, Bool.not_eq_true',
    not_and_or, Bool.not_eq_false]

/-- The dashed form of a name has a hyphen between two neighbours if and only if a word ends between
them. -/
theorem exists_dashCase_neighbours (h : Neighbours name.toList before a between b after) :
    ∃ front back, (dashCase name).toList = front ++ a.toLower ::
        ((if IsBreak a between b then ['-'] else []) ++ b.toLower :: back) ∧
      withoutHyphens front = smallAlphanums before ∧
      withoutHyphens back = smallAlphanums after := by
  obtain ⟨front, back, hjoined, hfront, hback⟩ :=
    exists_hyphenated_neighbours isAlphanum_of_inOneWord h
  refine ⟨front.map Char.toLower, back.map Char.toLower, ?_, ?_, ?_⟩
  · rw [toList_dashCase_eq_map, hjoined]
    by_cases hbreak : IsBreak a between b
    · rw [if_pos hbreak, if_neg (h.isBreak_iff.1 hbreak)]
      simp
    · rw [if_neg hbreak, if_pos (not_not.1 (mt h.isBreak_iff.2 hbreak))]
      simp
  · rw [withoutHyphens_map_toLower, hfront, smallAlphanums]
  · rw [withoutHyphens_map_toLower, hback, smallAlphanums]

example : dashCase "parse HTMLPage_2Go" = "parse-htmlpage-2-go" := by decide

theorem IsWord.map_toLower_capitalized {word : List Char} (h : IsWord word) :
    (capitalized word).map Char.toLower = word := by
  conv_rhs => rw [← h.map_toLower]
  cases word with
  | nil => rfl
  | cons c word => rw [capitalized, List.map_cons, Char.toLower_toUpper_eq_toLower, List.map_cons]

/-- In lower case, the camel-case form of a name is its dashed form without the hyphens. -/
theorem toList_toLower_upperCamelCase (name : String) :
    (upperCamelCase name).toLower.toList = withoutHyphens (dashCase name).toList := by
  have hwords : (nameWords name.toList).map (fun word => (capitalized word).map Char.toLower) =
      nameWords name.toList := by
    conv_rhs => rw [← List.map_id (nameWords name.toList)]
    exact List.map_congr_left fun word hword =>
      (isWord_of_mem_nameWords hword).map_toLower_capitalized
  rw [withoutHyphens_dashCase, smallAlphanums, ← flatten_nameWords, String.toLower,
    String.toList_map, toList_upperCamelCase, List.map_flatMap, List.flatMap_def, hwords]

end DashedForms

section Slugs

theorem isDashed_slug (name : String) : IsDashed (slug name) :=
  slug_eq_dashCase name ▸ isDashed_dashCase _

theorem lowered_eq_self (h : c.isLower = true ∨ c.isDigit = true ∨ c = '-') : lowered c = [c] := by
  have hupper : ¬ c.isUpper = true := by
    rcases h with h | h | rfl
    · exact not_isUpper_of_word (.inl h)
    · exact not_isUpper_of_word (.inr h)
    · decide
  have hascii : c ≠ '\u0130' ∧ c ≠ '\u212a' := by
    constructor <;> rintro rfl <;> revert h <;> decide
  rw [lowered, if_neg hascii.1, if_neg hascii.2, Char.toLower_eq_of_not_isUpper hupper]

theorem IsDashed.chars (h : IsDashed t) :
    ∀ c ∈ t.toList, c.isLower = true ∨ c.isDigit = true ∨ c = '-' := by
  intro c hc
  by_cases hhyphen : c = '-'
  · exact .inr (.inr hhyphen)
  · have hkept : c ∈ withoutHyphens (dashCase t).toList := by
      rw [dashCase_eq_self_iff.2 h]
      exact List.mem_filter.2 ⟨hc, decide_eq_true hhyphen⟩
    rw [withoutHyphens_dashCase, smallAlphanums] at hkept
    obtain ⟨d, hd, rfl⟩ := List.mem_map.1 hkept
    exact (toLower_of_isAlphanum (List.mem_filter.1 hd).2).imp_right .inl

theorem IsDashed.slug_eq_self (h : IsDashed t) : slug t = t := by
  have hlowered : t.toList.flatMap lowered = t.toList := by
    conv_rhs => rw [← List.flatMap_singleton' t.toList]
    exact List.flatMap_congr fun c hc => lowered_eq_self (h.chars c hc)
  rw [slug_eq_dashCase, hlowered, String.ofList_toList]
  exact dashCase_eq_self_iff.2 h

end Slugs

/-- A hyphen is written at each border of a name, then one for each run of characters that are
neither letters nor digits, and those at the ends are dropped; a slug is made of the lower-case form
without borders. Both are words of small letters and digits joined by single hyphens, and such texts
are left as they are. The dashed form of a name has its letters and digits in lower case, so that it
is empty if and only if there are none, and a hyphen between two neighbours if and only if a word
ends between them. The camel-case form differs from it in hyphens and capitals only. -/
theorem names_cut_into_words (name : String) :
    ((dashCase name).toList =
        (hyphensTrimmed (gapsClosed (bordersMarked name.toList))).map Char.toLower ∧
      (slug name).toList = hyphensTrimmed (gapsClosed (name.toList.flatMap lowered))) ∧
    (IsDashed (dashCase name) ∧ IsDashed (slug name)) ∧
    (dashCase name = "" ↔ ∀ c ∈ name.toList, c.isAlphanum = false) ∧
    (dashCase (dashCase name) = dashCase name ∧ slug (slug name) = slug name ∧
      slug (dashCase name) = dashCase name) ∧
    (withoutHyphens (dashCase name).toList = smallAlphanums name.toList ∧
      ∀ before a between b after, Neighbours name.toList before a between b after →
        ∃ front back, (dashCase name).toList = front ++ a.toLower ::
            ((if IsBreak a between b then ['-'] else []) ++ b.toLower :: back) ∧
          withoutHyphens front = smallAlphanums before ∧
          withoutHyphens back = smallAlphanums after) ∧
    (upperCamelCase name).toLower.toList = withoutHyphens (dashCase name).toList := by
  have hdashed := isDashed_dashCase name
  have hslug := isDashed_slug name
  refine ⟨⟨toList_dashCase name, toList_slug name⟩, ⟨hdashed, hslug⟩, ?_, ?_, ?_,
    toList_toLower_upperCamelCase name⟩
  · rw [← not_iff_not, ← Ne, dashCase_ne_empty_iff]
    simp
  · exact ⟨dashCase_eq_self_iff.2 hdashed, hslug.slug_eq_self, hdashed.slug_eq_self⟩
  · exact ⟨withoutHyphens_dashCase name, fun _ _ _ _ _ h => exists_dashCase_neighbours h⟩

/-- A letter outside ASCII ends a word, as does a digit in front of a capital. -/
theorem names_cut_into_words_cafe :
    Neighbours "Café au lait2Go".toList "Ca".toList 'f' "é ".toList 'a' "u lait2Go".toList ∧
    (∃ front back, (dashCase "Café au lait2Go").toList = front ++ 'f' :: '-' :: 'a' :: back ∧
      withoutHyphens front = "ca".toList ∧ withoutHyphens back = "ulait2go".toList) ∧
    Neighbours "Café au lait2Go".toList "Café au lait".toList '2' [] 'G' "o".toList ∧
    ∃ front back, (dashCase "Café au lait2Go").toList = front ++ '2' :: '-' :: 'g' :: back ∧
      withoutHyphens front = "cafaulait".toList ∧ withoutHyphens back = "o".toList := by
  have hgap : Neighbours "Café au lait2Go".toList "Ca".toList 'f' "é ".toList 'a'
      "u lait2Go".toList := ⟨by decide, rfl, rfl, by simp⟩
  have hborder : Neighbours "Café au lait2Go".toList "Café au lait".toList '2' [] 'G'
      "o".toList := ⟨by decide, rfl, rfl, by simp⟩
  obtain ⟨-, -, -, -, ⟨-, hbreaks⟩, -⟩ := names_cut_into_words "Café au lait2Go"
  obtain ⟨front, back, hdashed, hfront, hback⟩ := hbreaks _ _ _ _ _ hgap
  obtain ⟨front', back', hdashed', hfront', hback'⟩ := hbreaks _ _ _ _ _ hborder
  refine ⟨hgap, ⟨front, back, ?_, hfront.trans (by decide), hback.trans (by decide)⟩, hborder,
    front', back', ?_, hfront'.trans (by decide), hback'.trans (by decide)⟩
  · rw [hdashed, if_pos (by decide)]
    rfl
  · rw [hdashed', if_pos (by decide)]
    rfl

end Sitewright
