import Sitewright.Proofs.Text.Segments
import Sitewright.Text.Basic

/-!
# Lines of normalized texts

What is trimmed at the end of a text, and what normalizing leaves of its first line. A text of
several blocks of lines holds the lines of the blocks one after another.
-/

namespace Sitewright

section Trimming

variable {α : Type} {p : α → Bool} {a b : List α} {x : α}

theorem dropEndWhile_concat_of_pos (h : p x = true) :
    dropEndWhile p (a ++ [x]) = dropEndWhile p a := by
  simp [dropEndWhile, h]

theorem dropEndWhile_concat_of_neg (h : p x = false) : dropEndWhile p (a ++ [x]) = a ++ [x] := by
  simp [dropEndWhile, h]

/-- A list that ends for good shields what stands before its end. -/
theorem dropEndWhile_append (h : dropEndWhile p a = a) :
    dropEndWhile p (a ++ b) = a ++ dropEndWhile p b := by
  rw [dropEndWhile, List.reverse_eq_iff] at h
  rw [dropEndWhile, List.reverse_append, List.dropWhile_append, dropEndWhile]
  split
  · next hb => simp [h, List.isEmpty_iff.1 hb]
  · simp

end Trimming

variable {first rest : List Char}

theorem linesOf_append_cons (h : '\n' ∉ first) :
    linesOf (first ++ '\n' :: rest) = withoutReturn first :: linesOf rest := by
  have hpieces : pieces '\n' (first ++ '\n' :: rest) = first :: pieces '\n' rest := by
    rw [pieces_append_cons, pieces_of_notMem h]
    rfl
  have hne := pieces_ne_nil '\n' rest
  rw [linesOf, hpieces, linesOf, List.dropLast_cons_of_ne_nil hne, List.getLast?_cons_of_ne_nil hne]
  cases hlast : (pieces '\n' rest).getLast? with
  | none => exact absurd (List.getLast?_eq_none_iff.1 hlast) hne
  | some last => cases last <;> rfl

theorem prefix_normalizeLines (h : '\n' ∉ first) (hreturn : withoutReturn first = first)
    (hblank : dropEndWhile isBlank first = first) :
    first <+: normalizeLines (first ++ '\n' :: rest) := by
  rw [normalizeLines, linesOf_append_cons h, hreturn, List.map_cons, hblank]
  by_cases hrest : (linesOf rest).map (dropEndWhile isBlank) = []
  · rw [hrest, List.intercalate_singleton, hblank]
    exact List.prefix_append _ _
  · rw [List.intercalate_cons_of_ne_nil hrest, List.append_assoc, dropEndWhile_append hblank,
      List.append_assoc]
    exact List.prefix_append _ _

/-- A first line without white space at its end stays as it is. -/
theorem beginsWith_normalizeText {line : String} (h : '\n' ∉ line.toList)
    (hreturn : withoutReturn line.toList = line.toList)
    (hblank : dropEndWhile isBlank line.toList = line.toList) (rest : String) :
    beginsWith line (normalizeText (line ++ "\n" ++ rest)) = true := by
  have hfeed : "\n".toList = ['\n'] := rfl
  rw [beginsWith_iff, normalizeText, String.toList_ofList, String.toList_append,
    String.toList_append, hfeed, List.append_assoc, List.singleton_append]
  exact prefix_normalizeLines h hreturn hblank

/-- Blocks of lines, those without lines left out. -/
theorem intercalate_blocks (blocks : List (List String)) :
    "\n".intercalate ((blocks.filter (· ≠ [])).map "\n".intercalate) =
      "\n".intercalate blocks.flatten := by
  induction blocks with
  | nil => rfl
  | cons block rest ih =>
    by_cases hblock : block = []
    · simpa [hblock] using ih
    · have hfilter : (block :: rest).filter (· ≠ []) = block :: rest.filter (· ≠ []) := by
        simp [hblock]
      rw [hfilter, List.map_cons, List.flatten_cons]
      by_cases hrest : rest.flatten = []
      · have hnone : rest.filter (· ≠ []) = [] := by
          simpa [List.filter_eq_nil_iff] using hrest
        rw [hnone, hrest]
        simp
      · have hsome : (rest.filter (· ≠ [])).map "\n".intercalate ≠ [] := by
          intro hnone
          rw [List.map_eq_nil_iff, List.filter_eq_nil_iff] at hnone
          exact hrest (List.flatten_eq_nil_iff.2 fun l hl => by simpa using hnone l hl)
        rw [String.intercalate_cons_of_ne_nil hsome, ih,
          String.intercalate_append_of_ne_nil hblock hrest]

end Sitewright
