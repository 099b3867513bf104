import Sitewright.Proofs.Text.Passes

/-!
# Names made from names

The dashed form, the camel-case form and the slug of a name have its letters and digits. They are
empty if it has none, and the camel-case form begins with the first of them.
-/

namespace Sitewright

def reservedWords : List String :=
  ["arguments", "await", "break", "case", "catch", "class", "const", "continue", "debugger",
    "default", "delete", "do", "else", "enum", "eval", "export", "extends", "false", "finally",
    "for", "function", "if", "implements", "import", "in", "instanceof", "interface", "let", "new",
    "null", "package", "private", "protected", "public", "return", "static", "super", "switch",
    "this", "throw", "true", "try", "typeof", "var", "void", "while", "with", "yield"]

/-- An identifier of ASCII characters that a module of a script can declare. -/
structure IsIdentifier (s : String) : Prop where
  begins : s.toList.head?.any (fun c => c.isAlpha || c = '_' || c = '$') = true
  chars : s.toList.all (fun c => c.isAlphanum || c = '_' || c = '$') = true
  notReserved : s ∉ reservedWords

instance (s : String) : Decidable (IsIdentifier s) :=
  decidable_of_iff (_ ∧ _ ∧ s ∉ reservedWords)
    ⟨fun ⟨hbegins, hchars, hfree⟩ => ⟨hbegins, hchars, hfree⟩, fun h => ⟨h.1, h.2, h.3⟩⟩

variable {a c : Char} {s : List Char} {name : String} {words : List (List Char)}

theorem isAlphanum_toLower (c : Char) : c.toLower.isAlphanum = c.isAlphanum := by
  by_cases hupper : c.isUpper = true
  · have halpha : c.isAlpha = true := by simp [Char.isAlpha, hupper]
    simp [Char.isAlphanum, halpha]
  · rw [Char.toLower_eq_of_not_isUpper hupper]

theorem isAlphanum_toUpper (c : Char) : c.toUpper.isAlphanum = c.isAlphanum := by
  rw [← isAlphanum_toLower, Char.toLower_toUpper_eq_toLower, isAlphanum_toLower]

section Emptiness

theorem flatten_eq_nil_iff (h : ∀ word ∈ words, word ≠ []) : words.flatten = [] ↔ words = [] := by
  cases words with
  | nil => simp
  | cons word words => simp [h word List.mem_cons_self]

theorem hyphenated_eq_nil_iff (h : ∀ word ∈ words, word ≠ []) :
    hyphenated words = [] ↔ words = [] := by
  cases words with
  | nil => simp [hyphenated]
  | cons word words =>
    have hword := h word List.mem_cons_self
    cases words with
    | nil => simp [hyphenated_singleton, hword]
    | cons second rest => simp [hyphenated_cons (List.cons_ne_nil second rest), hword]

theorem filter_isAlphanum_eq_nil_iff :
    s.filter Char.isAlphanum = [] ↔ ¬ ∃ c ∈ s, c.isAlphanum = true := by
  simp [List.filter_eq_nil_iff]

theorem ne_nil_of_mem_nameWords {word : List Char} (h : word ∈ nameWords s) : word ≠ [] :=
  (isWord_of_mem_nameWords h).ne_nil

theorem nameWords_eq_nil_iff : nameWords s = [] ↔ ¬ ∃ c ∈ s, c.isAlphanum = true := by
  rw [← flatten_eq_nil_iff fun _ => ne_nil_of_mem_nameWords, flatten_nameWords,
    List.map_eq_nil_iff, filter_isAlphanum_eq_nil_iff]

theorem dashCase_ne_empty_iff : dashCase name ≠ "" ↔ ∃ c ∈ name.toList, c.isAlphanum = true := by
  rw [dashCase, Ne, ← String.toList_eq_nil_iff, String.toList_ofList,
    hyphenated_eq_nil_iff fun _ => ne_nil_of_mem_nameWords, nameWords_eq_nil_iff, not_not]

/-- The two characters outside ASCII that have a letter of ASCII in their lower-case form. -/
theorem exists_isAlphanum_lowered_iff :
    (∃ d ∈ lowered c, d.isAlphanum = true) ↔
      c.isAlphanum = true ∨ c = '\u0130' ∨ c = '\u212a' := by
  rw [lowered]
  split_ifs with hdotted hkelvin
  · exact iff_of_true ⟨'i', List.mem_cons_self, rfl⟩ (.inr (.inl hdotted))
  · exact iff_of_true ⟨'k', List.mem_cons_self, rfl⟩ (.inr (.inr hkelvin))
  · simp [isAlphanum_toLower, hdotted, hkelvin]

theorem slug_ne_empty_iff : slug name ≠ "" ↔
    ∃ c ∈ name.toList, c.isAlphanum = true ∨ c = '\u0130' ∨ c = '\u212a' := by
  rw [slug_eq_dashCase, dashCase_ne_empty_iff, String.toList_ofList]
  simp only [List.mem_flatMap, ← exists_isAlphanum_lowered_iff]
  constructor
  · rintro ⟨d, ⟨c, hc, hd⟩, halphanum⟩
    exact ⟨c, hc, d, hd, halphanum⟩
  · rintro ⟨c, hc, d, hd, halphanum⟩
    exact ⟨d, ⟨c, hc, hd⟩, halphanum⟩

end Emptiness

section CamelCaseNames

theorem toList_upperCamelCase (name : String) :
    (upperCamelCase name).toList = (nameWords name.toList).flatMap capitalized :=
  String.toList_ofList

theorem head?_flatMap_capitalized (h : ∀ word ∈ words, word ≠ []) :
    (words.flatMap capitalized).head? = words.flatten.head?.map Char.toUpper := by
  cases words with
  | nil => rfl
  | cons word words =>
    cases word with
    | nil => exact absurd rfl (h [] List.mem_cons_self)
    | cons c word => rfl

theorem head?_upperCamelCase (name : String) :
    (upperCamelCase name).toList.head? = (name.toList.find? Char.isAlphanum).map Char.toUpper := by
  rw [toList_upperCamelCase, head?_flatMap_capitalized fun _ => ne_nil_of_mem_nameWords,
    flatten_nameWords, List.head?_map, List.head?_filter, Option.map_map]
  exact congrArg (Option.map · _) (funext Char.toUpper_toLower_eq_toUpper)

theorem isAlphanum_of_mem_upperCamelCase (h : c ∈ (upperCamelCase name).toList) :
    c.isAlphanum = true := by
  rw [toList_upperCamelCase] at h
  obtain ⟨word, hword, hc⟩ := List.mem_flatMap.1 h
  have hchars : ∀ c ∈ word, c.isAlphanum = true := fun c hc =>
    isAlphanum_of_word ((isWord_of_mem_nameWords hword).chars c hc)
  cases word with
  | nil => cases hc
  | cons d word =>
    rcases List.mem_cons.1 hc with rfl | hc
    · rw [isAlphanum_toUpper]
      exact hchars d List.mem_cons_self
    · exact hchars c (List.mem_cons_of_mem _ hc)

theorem upperCamelCase_ne_empty_iff :
    upperCamelCase name ≠ "" ↔ ∃ c ∈ name.toList, c.isAlphanum = true := by
  rw [Ne, ← String.toList_eq_nil_iff, ← List.head?_eq_none_iff, head?_upperCamelCase,
    Option.map_eq_none_iff, List.find?_eq_none]
  simp

theorem not_isUpper_head_of_reserved :
    ∀ s ∈ reservedWords, s.toList.head?.any Char.isUpper = false := by
  decide

/-- The camel-case form of a name is an identifier if the first letter or digit of the name is a
letter. -/
theorem isIdentifier_upperCamelCase_iff : IsIdentifier (upperCamelCase name) ↔
    ∃ a, name.toList.find? Char.isAlphanum = some a ∧ a.isAlpha = true := by
  have hhead := head?_upperCamelCase name
  cases hfind : name.toList.find? Char.isAlphanum with
  | none =>
    rw [hfind] at hhead
    refine iff_of_false (fun h => ?_) (by simp)
    have hbegins := h.begins
    rw [hhead] at hbegins
    cases hbegins
  | some a =>
    rw [hfind, Option.map_some] at hhead
    have ha : a.toUpper.isAlphanum = true :=
      isAlphanum_of_mem_upperCamelCase (List.mem_of_head? hhead)
    have hmarks : a.toUpper ≠ '_' ∧ a.toUpper ≠ '$' := by
      constructor <;> (intro h; rw [h] at ha; cases ha)
    simp only [Option.some.injEq, exists_eq_left']
    constructor
    · intro h
      have hbegins := h.begins
      rw [hhead] at hbegins
      simpa [hmarks] using hbegins
    · intro halpha
      refine ⟨by simp [hhead, halpha], List.all_eq_true.2 fun c hc => ?_, fun hreserved => ?_⟩
      · simp [isAlphanum_of_mem_upperCamelCase hc]
      · have hlower := not_isUpper_head_of_reserved _ hreserved
        rw [hhead, Option.any_some, Char.isUpper_toUpper_eq_isAlpha, halpha] at hlower
        cases hlower

end CamelCaseNames

end Sitewright
