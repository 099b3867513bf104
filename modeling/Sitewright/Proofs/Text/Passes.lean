import Sitewright.Proofs.Text.Lines
import Sitewright.Proofs.Text.Runs

/-!
# Hyphens in three passes

The words of a name can be joined without being cut apart: hyphens mark the capitals that begin a
word, each run of characters that are neither letters nor digits is closed up to one hyphen, and the
hyphens at both ends are dropped. Borders cannot overlap, since no capital begins one.
-/

namespace Sitewright

/-- Whether a capital follows a small letter or a digit. -/
def isBorder (a b : Char) : Bool := (a.isLower || a.isDigit) && b.isUpper

/-- A text with a hyphen at each border. The two characters of a border are read together. -/
def bordersMarked : List Char → List Char
  | a :: b :: rest =>
    if isBorder a b then a :: '-' :: b :: bordersMarked rest else a :: bordersMarked (b :: rest)
  | s => s

/-- A text with one hyphen for each run of characters that are neither letters nor digits. It is
written for the last of them. -/
def gapsClosed : List Char → List Char
  | [] => []
  | c :: rest =>
    if c.isAlphanum then c :: gapsClosed rest
    else if rest.head?.any (!·.isAlphanum) then gapsClosed rest
    else '-' :: gapsClosed rest

def hyphensTrimmed (s : List Char) : List Char :=
  dropEndWhile (· = '-') (s.dropWhile (· = '-'))

def inOneRun (a b : Char) : Bool := a.isAlphanum && b.isAlphanum

variable {a b c : Char} {s front back : List Char} {words : List (List Char)} {name : String}

section Borders

theorem isBorder_eq_true_iff :
    isBorder a b = true ↔ (a.isLower = true ∨ a.isDigit = true) ∧ b.isUpper = true := by
  rw [isBorder, Bool.and_eq_true, Bool.or_eq_true]

theorem isBorder_of_isUpper (h : a.isUpper = true) : isBorder a b = false :=
  Bool.eq_false_iff.2 fun hborder =>
    not_isUpper_of_word (isBorder_eq_true_iff.1 hborder).1 h

theorem bordersMarked_cons_of_isUpper (h : a.isUpper = true) :
    bordersMarked (a :: s) = a :: bordersMarked s := by
  cases s with
  | nil => rfl
  | cons b s => rw [bordersMarked, isBorder_of_isUpper h, if_neg Bool.false_ne_true]

/-- The capital of a border can as well be read again. -/
theorem bordersMarked_cons_cons (a b : Char) (s : List Char) :
    bordersMarked (a :: b :: s) =
      if isBorder a b then a :: '-' :: bordersMarked (b :: s) else a :: bordersMarked (b :: s) := by
  rw [bordersMarked]
  split_ifs with hborder
  · rw [bordersMarked_cons_of_isUpper (isBorder_eq_true_iff.1 hborder).2]
  · rfl

theorem head?_bordersMarked (s : List Char) : (bordersMarked s).head? = s.head? := by
  cases s with
  | nil => rfl
  | cons a s =>
    cases s with
    | nil => rfl
    | cons b s => rw [bordersMarked_cons_cons]; split_ifs <;> rfl

theorem bordersMarked_eq_self (h : ∀ c ∈ s, c.isUpper = false) : bordersMarked s = s := by
  induction s with
  | nil => rfl
  | cons a s ih =>
    obtain ⟨-, hs⟩ := List.forall_mem_cons.1 h
    cases s with
    | nil => rfl
    | cons b s =>
      have hborder : isBorder a b = false := by simp [isBorder, hs b List.mem_cons_self]
      rw [bordersMarked_cons_cons, hborder, if_neg Bool.false_ne_true, ih hs]

theorem isAlphanum_of_inOneRun (a b : Char) (h : inOneRun a b = true) :
    a.isAlphanum = true ∧ b.isAlphanum = true :=
  Bool.and_eq_true_iff.1 h

theorem inOneWord_eq (a b : Char) : inOneWord a b = (inOneRun a b && !isBorder a b) := rfl

/-- Where its borders are marked, the words of a text are its runs of letters and digits. -/
theorem wordRuns_bordersMarked (s : List Char) :
    wordRuns inOneRun (bordersMarked s) = wordRuns inOneWord s := by
  induction s with
  | nil => rfl
  | cons a s ih =>
    cases s with
    | nil => rfl
    | cons b s =>
      rw [bordersMarked_cons_cons]
      cases hborder : isBorder a b with
      | true =>
        -- the hyphen keeps two runs apart where one word ends
        have ha : a.isAlphanum = true := isAlphanum_of_word (isBorder_eq_true_iff.1 hborder).1
        have hmark : ∀ d ∈ ('-' :: bordersMarked (b :: s)).head?, inOneRun a d = false := by
          simp [inOneRun, show '-'.isAlphanum = false from rfl]
        have hcut : ∀ d ∈ (b :: s).head?, inOneWord a d = false := by
          simp [inOneWord_eq, hborder]
        rw [if_pos rfl, wordRuns_cons_of_apart ha hmark,
          wordRuns_cons_of_not isAlphanum_of_inOneRun rfl, ih, wordRuns_cons_of_apart ha hcut]
      | false =>
        have hhead : (bordersMarked (b :: s)).head? = some b := head?_bordersMarked _
        have hword : inOneWord a b = inOneRun a b := by simp [inOneWord_eq, hborder]
        rw [if_neg Bool.false_ne_true]
        cases hrun : inOneRun a b with
        | true =>
          rw [wordRuns_cons_of_together isAlphanum_of_inOneRun ⟨b, hhead, hrun⟩, ih,
            wordRuns_cons_of_together isAlphanum_of_inOneWord ⟨b, rfl, hword.trans hrun⟩]
        | false =>
          cases ha : a.isAlphanum with
          | true =>
            rw [wordRuns_cons_of_apart ha (by simpa [hhead] using hrun), ih,
              wordRuns_cons_of_apart ha (by simpa [hword] using hrun)]
          | false =>
            rw [wordRuns_cons_of_not isAlphanum_of_inOneRun ha, ih,
              wordRuns_cons_of_not isAlphanum_of_inOneWord ha]

end Borders

section Gaps

theorem gapsClosed_cons_of_isAlphanum (h : c.isAlphanum = true) :
    gapsClosed (c :: s) = c :: gapsClosed s := by
  rw [gapsClosed, if_pos h]

theorem gapsClosed_cons_of_not (h : c.isAlphanum = false) :
    gapsClosed (c :: s) =
      if s.head?.any (!·.isAlphanum) then gapsClosed s else '-' :: gapsClosed s := by
  rw [gapsClosed, h, if_neg Bool.false_ne_true]

/-- Closing the gaps of a text joins its runs. A hyphen is left in front of them if the text begins
with a gap, and perhaps one behind them. -/
theorem exists_gapsClosed (s : List Char) : ∃ back, (∀ c ∈ back, c = '-') ∧
    gapsClosed s = (if s.head?.any (!·.isAlphanum) then ['-'] else []) ++
      (hyphenated (wordRuns inOneRun s) ++ back) := by
  induction s with
  | nil => exact ⟨[], by simp, rfl⟩
  | cons c s ih =>
    obtain ⟨back, hback, hs⟩ := ih
    cases hc : c.isAlphanum with
    | false =>
      refine ⟨back, hback, ?_⟩
      rw [gapsClosed_cons_of_not hc, wordRuns_cons_of_not isAlphanum_of_inOneRun hc, hs,
        List.head?_cons, Option.any_some, hc, Bool.not_false, if_pos rfl]
      split_ifs <;> rfl
    | true =>
      rw [gapsClosed_cons_of_isAlphanum hc, List.head?_cons, Option.any_some, hc, Bool.not_true,
        if_neg Bool.false_ne_true]
      cases hgap : s.head?.any (!·.isAlphanum) with
      | true =>
        -- the gap behind the run stays as a hyphen, between two runs or at the end
        rw [hgap, if_pos rfl] at hs
        have hapart : ∀ b ∈ s.head?, inOneRun c b = false := by
          intro b hb
          rw [Option.mem_def.1 hb] at hgap
          simpa [inOneRun, hc] using hgap
        by_cases hruns : wordRuns inOneRun s = []
        · refine ⟨'-' :: back, by simpa using hback, ?_⟩
          rw [List.nil_append, hs, wordRuns_cons_of_apart hc hapart, hruns, hyphenated_singleton]
          rfl
        · refine ⟨back, hback, ?_⟩
          rw [List.nil_append, hs, hyphenated_wordRuns_of_apart hc hapart hruns]
          rfl
      | false =>
        rw [hgap, if_neg Bool.false_ne_true, List.nil_append] at hs
        refine ⟨back, hback, ?_⟩
        cases s with
        | nil =>
          rw [List.nil_append, hs, wordRuns_cons_of_apart hc (by simp)]
          rfl
        | cons d s =>
          have hrun : inOneRun c d = true := by simpa [inOneRun, hc] using hgap
          rw [List.nil_append, hs,
            hyphenated_wordRuns_of_together isAlphanum_of_inOneRun ⟨d, rfl, hrun⟩]
          rfl

end Gaps

section Ends

theorem hyphensTrimmed_append (hfront : ∀ c ∈ front, c = '-') (hback : ∀ c ∈ back, c = '-')
    (hhead : s.head? ≠ some '-') (hlast : s.getLast? ≠ some '-') :
    hyphensTrimmed (front ++ (s ++ back)) = s := by
  have hnone : back.dropWhile (· = '-') = [] := List.dropWhile_eq_nil_iff.2 (by simpa using hback)
  rw [hyphensTrimmed, List.dropWhile_append_of_pos (by simpa using hfront)]
  cases s with
  | nil => rw [List.nil_append, hnone]; rfl
  | cons c s =>
    have hc : c ≠ '-' := by simpa using hhead
    have hshield : dropEndWhile (· = '-') (c :: s) = c :: s := by
      refine List.rdropWhile_eq_self_iff.2 fun hne hhyphen => hlast ?_
      rw [List.getLast?_eq_some_getLast hne, of_decide_eq_true hhyphen]
    have hend : dropEndWhile (· = '-') back = [] :=
      List.rdropWhile_eq_nil_iff.2 (by simpa using hback)
    rw [List.cons_append, List.dropWhile_cons_of_neg (by simpa using hc), ← List.cons_append,
      dropEndWhile_append hshield, hend, List.append_nil]

/-- With their gaps closed and the hyphens at both ends dropped, the runs of a text are joined by
single hyphens. -/
theorem hyphensTrimmed_gapsClosed (s : List Char) :
    hyphensTrimmed (gapsClosed s) = hyphenated (wordRuns inOneRun s) := by
  obtain ⟨back, hback, hs⟩ := exists_gapsClosed s
  have hruns : ∀ run ∈ wordRuns inOneRun s, run ≠ [] := fun run hrun => (mem_wordRuns hrun).1
  have hhyphen : '-' ∉ (wordRuns inOneRun s).flatten := by
    rw [flatten_wordRuns isAlphanum_of_inOneRun, List.mem_filter]
    exact fun h => Bool.false_ne_true h.2
  rw [hs]
  refine hyphensTrimmed_append (by split_ifs <;> simp) hback ?_ ?_
  · rw [head?_hyphenated hruns]
    exact fun h => hhyphen (List.mem_of_head? h)
  · rw [getLast?_hyphenated hruns]
    exact fun h => hhyphen (List.mem_of_getLast? h)

end Ends

theorem toList_slug (name : String) :
    (slug name).toList = hyphensTrimmed (gapsClosed (name.toList.flatMap lowered)) := by
  rw [hyphensTrimmed_gapsClosed]
  exact String.toList_ofList

/-- The dashed form of a name in three passes. -/
theorem toList_dashCase (name : String) : (dashCase name).toList =
    (hyphensTrimmed (gapsClosed (bordersMarked name.toList))).map Char.toLower := by
  rw [toList_dashCase_eq_map, hyphensTrimmed_gapsClosed, wordRuns_bordersMarked]

theorem isUpper_lowered (c : Char) : ∀ d ∈ lowered c, d.isUpper = false := by
  intro d hd
  rw [lowered] at hd
  split_ifs at hd with hdotted hkelvin
  · obtain rfl | rfl : d = 'i' ∨ d = '\u0307' := by simpa using hd
    · rfl
    · rfl
  · obtain rfl := List.mem_singleton.1 hd
    rfl
  · obtain rfl := List.mem_singleton.1 hd
    simp

/-- A slug is the dashed form of the name in lower case. -/
theorem slug_eq_dashCase (name : String) :
    slug name = dashCase (String.ofList (name.toList.flatMap lowered)) := by
  have hsmall : ∀ c ∈ name.toList.flatMap lowered, c.isUpper = false := fun c hc => by
    obtain ⟨d, -, hd⟩ := List.mem_flatMap.1 hc
    exact isUpper_lowered d c hd
  rw [← String.toList_inj, toList_slug, toList_dashCase, String.toList_ofList,
    bordersMarked_eq_self hsmall, hyphensTrimmed_gapsClosed, map_toLower_eq_self fun c hc => ?_]
  rcases mem_hyphenated_wordRuns isAlphanum_of_inOneRun hc with rfl | hc
  · decide
  · exact Bool.eq_false_iff.1 (hsmall c hc)

end Sitewright
