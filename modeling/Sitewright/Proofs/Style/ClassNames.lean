import Mathlib
import Sitewright.Proofs.Style.Classes
import Sitewright.Proofs.Text.Words

/-!
# Names of classes

The names that are tried for a class are all different, so one more of them than there are names in
use cannot all be taken. The search for a free name therefore ends, and finds the first one.

The value of a class attribute lists classes between white space. The name that extraction makes for
an element is one class in such a list, and stands in the element's value after the classes that the
element has had before.
-/

namespace Sitewright.Style

variable {base : String} {used : List String} {m n : Nat} {e : Ui.Element}

theorem candidate_injective (base : String) : Function.Injective (candidate base) := by
  have hlonger (n : Nat) : base ≠ candidate base (n + 1) := by
    intro h
    have hlength := congrArg String.length h
    simp only [candidate, String.length_append] at hlength
    have hhyphen : "-".length = 1 := rfl
    omega
  intro m n h
  cases m with
  | zero =>
    cases n with
    | zero => rfl
    | succ n => exact absurd h (hlonger n)
  | succ m =>
    cases n with
    | zero => exact absurd h.symm (hlonger m)
    | succ n => exact Nat.repr_inj.1 ((String.append_right_inj (base ++ "-")).1 h)

/-- A candidate is free, and those before it are taken. -/
structure IsFirstFree (base : String) (used : List String) (n : Nat) : Prop where
  free : candidate base n ∉ used
  taken : ∀ m < n, candidate base m ∈ used

theorem le_length_of_taken (h : ∀ m < n, candidate base m ∈ used) : n ≤ used.length := by
  have hnodup : ((List.range n).map (candidate base)).Nodup :=
    List.nodup_range.map (candidate_injective base)
  have hsubset : (List.range n).map (candidate base) ⊆ used := by
    intro name hname
    obtain ⟨m, hm, rfl⟩ := List.mem_map.1 hname
    exact h m (List.mem_range.1 hm)
  simpa using hnodup.length_le_of_subset hsubset

theorem IsFirstFree.le_length (h : IsFirstFree base used n) : n ≤ used.length :=
  le_length_of_taken h.taken

def classBase (e : Ui.Element) : String :=
  let base := dashCase (e.name.getD e.kind)
  if base.isEmpty then "element" else base

theorem exists_find?_candidate (base : String) (used : List String) : ∃ n,
    ((List.range (used.length + 1)).map (candidate base)).find? (!used.contains ·) =
      some (candidate base n) ∧ IsFirstFree base used n := by
  rw [List.find?_map]
  cases hfind : (List.range (used.length + 1)).find? ((!used.contains ·) ∘ candidate base) with
  | none =>
    have htaken : ∀ m < used.length + 1, candidate base m ∈ used := by
      intro m hm
      simpa using List.find?_eq_none.1 hfind m (List.mem_range.2 hm)
    have hle := le_length_of_taken htaken
    omega
  | some n =>
    obtain ⟨hfree, -, htaken⟩ := List.find?_range_eq_some.1 hfind
    exact ⟨n, rfl, by simpa using hfree, fun m hm => by simpa using htaken m hm⟩

/-- The search for a class name comes to the first candidate that is free. -/
theorem exists_classNameFor (e : Ui.Element) (used : List String) : ∃ n,
    classNameFor e used = candidate (classBase e) n ∧ IsFirstFree (classBase e) used n := by
  obtain ⟨n, hfind, hfirst⟩ := exists_find?_candidate (classBase e) used
  refine ⟨n, ?_, hfirst⟩
  rw [classNameFor, freshName]
  exact congrArg (Option.getD · (classBase e)) hfind

/-! ## Lists of classes -/

def separates (c : Char) : Bool := [' ', '\t', '\n', '\x0c', '\r'].contains c

/-- A text that is one class in a list of classes. -/
structure IsClassName (name : String) : Prop where
  ne_empty : name ≠ ""
  chars : ∀ c ∈ name.toList, separates c = false

/-- A class is in the list that a text is: it stands there between white space or the ends. -/
def ListsClass (text name : String) : Prop :=
  IsClassName name ∧ ∃ before after, text.toList = before ++ name.toList ++ after ∧
    (∀ c ∈ before.getLast?, separates c = true) ∧ ∀ c ∈ after.head?, separates c = true

variable {name text added : String} {s : ClassStyle}

theorem IsClassName.listsClass (h : IsClassName name) : ListsClass name name :=
  ⟨h, [], [], by simp, by simp, by simp⟩

theorem toList_blank_append (text added : String) :
    (text ++ " " ++ added).toList = text.toList ++ ' ' :: added.toList := by
  rw [String.toList_append, String.toList_append, List.append_assoc]
  rfl

theorem IsClassName.listsClass_added (h : IsClassName added) (text : String) :
    ListsClass (text ++ " " ++ added) added := by
  refine ⟨h, text.toList ++ [' '], [], ?_, ?_, by simp⟩
  · rw [toList_blank_append]
    simp
  · simp [separates]

theorem ListsClass.add (h : ListsClass text name) (added : String) :
    ListsClass (text ++ " " ++ added) name := by
  obtain ⟨hname, before, after, htext, hbefore, hafter⟩ := h
  refine ⟨hname, before, after ++ ' ' :: added.toList, ?_, hbefore, ?_⟩
  · rw [toList_blank_append, htext, List.append_assoc]
  · cases after with
    | nil => simp [separates]
    | cons c after => simpa using hafter

/-! ## Extracted names -/

theorem separates_of_word {c : Char} (h : c.isLower ∨ c.isDigit) : separates c = false := by
  have hblank : [' ', '\t', '\n', '\x0c', '\r'].all
      (fun d => !(d.isLower || d.isDigit)) = true := by decide
  by_contra hc
  have hmem : c ∈ [' ', '\t', '\n', '\x0c', '\r'] :=
    List.contains_iff_mem.1 (Bool.of_not_eq_false hc)
  have hnot := List.all_eq_true.1 hblank c hmem
  rw [Bool.or_eq_true_iff.2 h] at hnot
  cases hnot

theorem isClassName_dashCase (hne : dashCase name ≠ "") : IsClassName (dashCase name) := by
  refine ⟨hne, fun c hc => ?_⟩
  obtain ⟨words, hwords, hs⟩ := isDashed_dashCase name
  rw [hs, hyphenated, List.intercalate, List.mem_flatten] at hc
  obtain ⟨piece, hpiece, hc⟩ := hc
  rcases mem_hyphens hpiece with rfl | hword
  · rw [List.mem_singleton.1 hc]
    rfl
  · exact separates_of_word ((hwords piece hword).chars c hc)

theorem IsClassName.candidate (h : IsClassName name) (n : Nat) :
    IsClassName (candidate name n) := by
  cases n with
  | zero => exact h
  | succ n =>
    have hchars : (Style.candidate name (n + 1)).toList =
        name.toList ++ '-' :: Nat.toDigits 10 (n + 1) := by
      rw [Style.candidate, String.toList_append, String.toList_append, List.append_assoc,
        ← Nat.toList_repr]
      rfl
    refine ⟨fun hnil => ?_, fun c hc => ?_⟩
    · rw [hnil] at hchars
      simp at hchars
    · rw [hchars, List.mem_append, List.mem_cons] at hc
      rcases hc with hc | rfl | hc
      · exact h.chars c hc
      · rfl
      · exact separates_of_word (.inr (Nat.isDigit_of_mem_toDigits (by decide) (by decide) hc))

theorem isClassName_classNameFor (e : Ui.Element) (used : List String) :
    IsClassName (classNameFor e used) := by
  obtain ⟨n, hn, -⟩ := exists_classNameFor e used
  rw [hn]
  refine IsClassName.candidate ?_ n
  show IsClassName (if (dashCase (e.name.getD e.kind)).isEmpty then "element" else _)
  by_cases hempty : (dashCase (e.name.getD e.kind)).isEmpty = true
  · rw [if_pos hempty]
    exact ⟨by decide, by simp [separates]⟩
  · rw [if_neg hempty]
    exact isClassName_dashCase (by simpa using hempty)

theorem isClassName_extractElement (h : s ∈ (extractElement used e).2) :
    IsClassName s.className := by
  rw [extractElement] at h
  split at h
  · cases h
  · rw [List.mem_singleton.1 h]
    exact isClassName_classNameFor e used

mutual
/-- Every name that is made for an element is a class. -/
theorem isClassName_extract {used : List String} : ∀ {node : Ui.Node},
    s ∈ (extract used node).2 → IsClassName s.className
  | .element _ _, h => by
    rcases List.mem_append.1 h with h | h
    · exact isClassName_extractElement h
    · exact isClassName_extractAll h
  | .text _, h => by cases h
  | .dynamic _, h => by cases h

theorem isClassName_extractAll {used : List String} : ∀ {nodes : List Ui.Node},
    s ∈ (extractAll used nodes).2 → IsClassName s.className
  | [], h => by cases h
  | _ :: _, h => by
    rcases List.mem_append.1 h with h | h
    · exact isClassName_extract h
    · exact isClassName_extractAll h
end

/-! ## The class attribute of a styled element -/

def classesWith (own : Option Ui.Value) (className : String) : String :=
  match own with
  | some (.literal existing) =>
    if existing.isEmpty then className else existing ++ " " ++ className
  | _ => className

theorem get?_withClass (e : Ui.Element) (className key : String) :
    (withClass e className).attrs.get? key = if key = "class" then
      some (.literal (classesWith (e.attrs.get? "class") className)) else e.attrs.get? key :=
  Table.get?_insert _ _ _ _

theorem listsClass_classesWith (h : IsClassName name) : ∀ own : Option Ui.Value,
    ListsClass (classesWith own name) name
  | none => h.listsClass
  | some (.dynamic _) => h.listsClass
  | some (.literal existing) => by
    rw [classesWith]
    by_cases hempty : existing.isEmpty = true
    · rw [if_pos hempty]
      exact h.listsClass
    · rw [if_neg hempty]
      exact h.listsClass_added existing

theorem ListsClass.ne_empty (h : ListsClass text name) : text ≠ "" := by
  obtain ⟨hname, before, after, htext, -, -⟩ := h
  rintro rfl
  have hnil : before = [] ∧ name = "" ∧ after = [] := by simpa [and_assoc] using htext.symm
  exact hname.ne_empty hnil.2.1

theorem ListsClass.classesWith (h : ListsClass text name) (added : String) :
    ListsClass (classesWith (some (.literal text)) added) name := by
  rw [Style.classesWith, if_neg (by simpa using h.ne_empty)]
  exact h.add added

end Sitewright.Style
