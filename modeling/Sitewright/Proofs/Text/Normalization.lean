import Mathlib.Data.List.DropRight
import Sitewright.Generator.Builtin
import Sitewright.Proofs.Table
import Sitewright.Proofs.Text.Lines

/-!
# Normalized white space

A text is read as lines that are ended by a line feed or by a carriage return and a line feed.
Where a carriage return stands before a line feed, it may be read as a part of the line or of its
end. All readings come to the same normalized text: the lines without the white space at their ends,
those left empty at the end of the text dropped, and one line feed after the last.
-/

namespace Sitewright

section Trimming

variable {α : Type} {p : α → Bool} {l a b : List α} {x : α}

theorem dropEndWhile_idem (p : α → Bool) (l : List α) :
    dropEndWhile p (dropEndWhile p l) = dropEndWhile p l := List.rdropWhile_idempotent p l

theorem dropEndWhile_eq_nil_iff : dropEndWhile p l = [] ↔ ∀ x ∈ l, p x = true :=
  List.rdropWhile_eq_nil_iff

theorem mem_of_mem_dropEndWhile (h : x ∈ dropEndWhile p l) : x ∈ l :=
  (List.rdropWhile_prefix p l).subset h

theorem getLast?_dropEndWhile (h : x ∈ (dropEndWhile p l).getLast?) : p x = false := by
  obtain ⟨hne, rfl⟩ := List.mem_getLast?_eq_getLast h
  exact eq_false_of_ne_true (List.rdropWhile_last_not p l hne)

theorem dropEndWhile_append_of_eq_nil (h : dropEndWhile p b = []) :
    dropEndWhile p (a ++ b) = dropEndWhile p a := by
  induction b using List.reverseRecOn with
  | nil => rw [List.append_nil]
  | append_singleton b x ih =>
    have hall := dropEndWhile_eq_nil_iff.1 h
    rw [← List.append_assoc, dropEndWhile_concat_of_pos (hall x (by simp))]
    exact ih (dropEndWhile_eq_nil_iff.2 fun y hy => hall y (by simp [hy]))

theorem dropEndWhile_append_of_ne_nil (h : dropEndWhile p b ≠ []) :
    dropEndWhile p (a ++ b) = a ++ dropEndWhile p b := by
  rw [dropEndWhile, List.reverse_append, List.dropWhile_append, if_neg, List.reverse_append,
    List.reverse_reverse, dropEndWhile]
  simpa [dropEndWhile] using h

theorem dropEndWhile_cons (p : α → Bool) (x : α) (l : List α) :
    dropEndWhile p (x :: l) =
      if dropEndWhile p l = [] ∧ p x = true then [] else x :: dropEndWhile p l := by
  by_cases hl : dropEndWhile p l = []
  · rw [← List.singleton_append, dropEndWhile_append_of_eq_nil hl, hl]
    cases hx : p x with
    | true => simp [dropEndWhile, hx]
    | false => simp [dropEndWhile, hx]
  · rw [← List.singleton_append, dropEndWhile_append_of_ne_nil hl, if_neg fun h => hl h.1]
    rfl

end Trimming

/-! ## Lines of a text -/

/-- The lines that a text can be read as. -/
inductive IsLines : List Char → List (List Char) → Prop
  | last {line : List Char} (h : '\n' ∉ line) : IsLines line [line]
  | feed {line rest : List Char} {lines : List (List Char)} (h : '\n' ∉ line)
      (hrest : IsLines rest lines) : IsLines (line ++ '\n' :: rest) (line :: lines)
  | returnFeed {line rest : List Char} {lines : List (List Char)} (h : '\n' ∉ line)
      (hrest : IsLines rest lines) : IsLines (line ++ '\r' :: '\n' :: rest) (line :: lines)

/-- Lines without the white space at their ends, those left empty at the end dropped. -/
def tidyLines (lines : List (List Char)) : List (List Char) :=
  dropEndWhile List.isEmpty (lines.map (dropEndWhile isBlank))

variable {text line rest : List Char} {lines : List (List Char)}

theorem dropEndWhile_withoutReturn (line : List Char) :
    dropEndWhile isBlank (withoutReturn line) = dropEndWhile isBlank line := by
  induction line using List.reverseRecOn with
  | nil => rfl
  | append_singleton line c =>
    by_cases hc : c = '\r'
    · subst hc
      rw [dropEndWhile_concat_of_pos (by decide)]
      simp [withoutReturn]
    · have hkept : withoutReturn (line ++ [c]) = line ++ [c] := by simp [withoutReturn, hc]
      rw [hkept]

theorem withoutReturn_concat (line : List Char) : withoutReturn (line ++ ['\r']) = line := by
  simp [withoutReturn]

theorem linesOf_of_notMem (h : '\n' ∉ line) : linesOf line = if line = [] then [] else [line] := by
  cases line with
  | nil => rfl
  | cons c line => simp [linesOf, pieces_of_notMem h]

theorem tidyLines_cons (line : List Char) (lines : List (List Char)) :
    tidyLines (line :: lines) =
      if tidyLines lines = [] ∧ dropEndWhile isBlank line = [] then []
      else dropEndWhile isBlank line :: tidyLines lines := by
  rw [tidyLines, List.map_cons, dropEndWhile_cons]
  exact if_congr (and_congr_right' List.isEmpty_iff) rfl rfl

/-- Every reading of a text has the same tidy lines. -/
theorem IsLines.tidyLines_linesOf (h : IsLines text lines) :
    tidyLines (linesOf text) = tidyLines lines := by
  induction h with
  | @last line h =>
    rw [linesOf_of_notMem h]
    split
    · next hline => rw [hline]; rfl
    · rfl
  | @feed line rest lines h _ ih =>
    rw [linesOf_append_cons h, tidyLines_cons, tidyLines_cons, dropEndWhile_withoutReturn, ih]
  | @returnFeed line rest lines h _ ih =>
    have hline : '\n' ∉ line ++ ['\r'] := by simp [h]
    have hsplit : line ++ '\r' :: '\n' :: rest = (line ++ ['\r']) ++ '\n' :: rest := by simp
    rw [hsplit, linesOf_append_cons hline, withoutReturn_concat, tidyLines_cons, tidyLines_cons, ih]

theorem intercalate_eq_nil {sep : List Char} (hsep : sep ≠ []) :
    sep.intercalate lines = [] ↔ lines = [] ∨ lines = [[]] := by
  rcases lines with _ | ⟨line, _ | ⟨next, lines⟩⟩
  · simp
  · simp
  · simp [List.intercalate_cons_cons, hsep]

theorem tidyLines_ne_singleton (lines : List (List Char)) : tidyLines lines ≠ [[]] := by
  intro h
  have hlast : [] ∈ (tidyLines lines).getLast? := by
    rw [h]
    rfl
  cases getLast?_dropEndWhile hlast

theorem dropEndWhile_intercalate (lines : List (List Char)) :
    dropEndWhile isBlank (['\n'].intercalate (lines.map (dropEndWhile isBlank))) =
      ['\n'].intercalate (tidyLines lines) := by
  induction lines with
  | nil => rfl
  | cons line lines ih =>
    rw [List.map_cons, tidyLines_cons]
    by_cases hrest : tidyLines lines = []
    · -- only the first line can be left
      have hleft : ['\n'].intercalate
          (if tidyLines lines = [] ∧ dropEndWhile isBlank line = [] then []
          else dropEndWhile isBlank line :: tidyLines lines) = dropEndWhile isBlank line := by
        rw [hrest]
        split
        · next hline => exact hline.2.symm
        · rw [List.intercalate_singleton]
      rw [hleft]
      by_cases hlines : lines = []
      · rw [hlines, List.map_nil, List.intercalate_singleton, dropEndWhile_idem]
      · have hnil :
            dropEndWhile isBlank (['\n'].intercalate (lines.map (dropEndWhile isBlank))) = [] := by
          rw [ih, hrest]
          rfl
        rw [List.intercalate_cons_of_ne_nil (by simpa using hlines),
          dropEndWhile_append_of_eq_nil hnil, dropEndWhile_concat_of_pos (by decide),
          dropEndWhile_idem]
    · have hlines : lines.map (dropEndWhile isBlank) ≠ [] := by
        intro h
        obtain rfl := List.map_eq_nil_iff.1 h
        exact hrest rfl
      have hne :
          dropEndWhile isBlank (['\n'].intercalate (lines.map (dropEndWhile isBlank))) ≠ [] := by
        rw [ih, ne_eq, intercalate_eq_nil (by simp), not_or]
        exact ⟨hrest, tidyLines_ne_singleton lines⟩
      rw [List.intercalate_cons_of_ne_nil hlines, dropEndWhile_append_of_ne_nil hne, ih,
        if_neg fun h => hrest h.1, List.intercalate_cons_of_ne_nil hrest]

theorem normalizeLines_eq (h : IsLines text lines) :
    normalizeLines text = ['\n'].intercalate (tidyLines lines) ++ ['\n'] := by
  rw [normalizeLines, dropEndWhile_intercalate, h.tidyLines_linesOf]

/-! ## The normalized text -/

theorem isLines_pieces (text : List Char) : IsLines text (pieces '\n' text) := by
  induction hlength : text.length using Nat.strong_induction_on generalizing text with
  | h length ih =>
    by_cases hmem : '\n' ∈ text
    · obtain ⟨line, rest, rfl, hline⟩ := List.eq_append_cons_of_mem hmem
      rw [pieces_append_cons, pieces_of_notMem hline]
      refine .feed hline (ih rest.length ?_ rest rfl)
      simp only [List.length_append, List.length_cons] at hlength
      omega
    · rw [pieces_of_notMem hmem]
      exact .last hmem

theorem IsLines.notMem (h : IsLines text lines) : ∀ line ∈ lines, '\n' ∉ line := by
  induction h with
  | last h => simpa using h
  | feed h _ ih => exact List.forall_mem_cons.2 ⟨h, ih⟩
  | returnFeed h _ ih => exact List.forall_mem_cons.2 ⟨h, ih⟩

theorem IsLines.mem_pieces (h : IsLines text lines) :
    ∀ line ∈ lines, line ∈ pieces '\n' text ∨ line ++ ['\r'] ∈ pieces '\n' text := by
  induction h with
  | last h => simp [pieces_of_notMem h]
  | @feed line rest lines h _ ih =>
    intro other hother
    rw [pieces_append_cons, pieces_of_notMem h]
    rcases List.mem_cons.1 hother with rfl | hother
    · simp
    · exact (ih other hother).imp (List.mem_cons_of_mem _) (List.mem_cons_of_mem _)
  | @returnFeed line rest lines h _ ih =>
    intro other hother
    have hline : '\n' ∉ line ++ ['\r'] := by simp [h]
    rw [← List.singleton_append, ← List.append_assoc, pieces_append_cons, pieces_of_notMem hline]
    rcases List.mem_cons.1 hother with rfl | hother
    · simp
    · exact (ih other hother).imp (List.mem_cons_of_mem _) (List.mem_cons_of_mem _)

theorem IsLines.forall_mem_iff {p : Char → Prop} (hfeed : p '\n') (hreturn : p '\r')
    (h : IsLines text lines) : (∀ line ∈ lines, ∀ c ∈ line, p c) ↔ ∀ c ∈ text, p c := by
  induction h with
  | last _ => rw [List.forall_mem_singleton]
  | feed _ _ ih =>
    rw [List.forall_mem_cons, ih, List.forall_mem_append, List.forall_mem_cons,
      and_iff_right hfeed]
  | returnFeed _ _ ih =>
    rw [List.forall_mem_cons, ih, List.forall_mem_append, List.forall_mem_cons,
      List.forall_mem_cons, and_iff_right hreturn, and_iff_right hfeed]

theorem pieces_intercalate (hne : lines ≠ []) (h : ∀ line ∈ lines, '\n' ∉ line) :
    pieces '\n' (['\n'].intercalate lines) = lines := by
  induction lines with
  | nil => exact absurd rfl hne
  | cons line lines ih =>
    obtain ⟨hline, hrest⟩ := List.forall_mem_cons.1 h
    by_cases hlines : lines = []
    · rw [hlines, List.intercalate_singleton, pieces_of_notMem hline]
    · rw [List.intercalate_cons_of_ne_nil hlines, List.append_assoc, List.singleton_append,
        pieces_append_cons, pieces_of_notMem hline, ih hlines hrest]
      rfl

theorem exists_of_mem_tidyLines (h : line ∈ tidyLines lines) :
    ∃ whole ∈ lines, dropEndWhile isBlank whole = line :=
  List.mem_map.1 (mem_of_mem_dropEndWhile h)

theorem getLast?_of_mem_tidyLines {c : Char} (h : line ∈ tidyLines lines) (hc : c ∈ line.getLast?) :
    isBlank c = false := by
  obtain ⟨whole, -, rfl⟩ := exists_of_mem_tidyLines h
  exact getLast?_dropEndWhile hc

theorem tidyLines_idem (lines : List (List Char)) :
    tidyLines (tidyLines lines) = tidyLines lines := by
  have htrimmed : (tidyLines lines).map (dropEndWhile isBlank) = tidyLines lines := by
    conv_rhs => rw [← List.map_id (tidyLines lines)]
    refine List.map_congr_left fun line hline => ?_
    obtain ⟨whole, -, rfl⟩ := exists_of_mem_tidyLines hline
    exact dropEndWhile_idem isBlank whole
  rw [tidyLines, htrimmed]
  exact dropEndWhile_idem _ _

theorem tidyLines_concat_nil (lines : List (List Char)) :
    tidyLines (lines ++ [[]]) = tidyLines lines := by
  rw [tidyLines, List.map_append]
  exact dropEndWhile_concat_of_pos rfl

theorem tidyLines_eq_nil_iff :
    tidyLines lines = [] ↔ ∀ line ∈ lines, ∀ c ∈ line, isBlank c = true := by
  simp [tidyLines, dropEndWhile_eq_nil_iff]

theorem IsLines.notMem_tidyLines (h : IsLines text lines) :
    ∀ line ∈ tidyLines lines, '\n' ∉ line := by
  intro line hline hmem
  obtain ⟨whole, hwhole, rfl⟩ := exists_of_mem_tidyLines hline
  exact h.notMem whole hwhole (mem_of_mem_dropEndWhile hmem)

theorem pieces_intercalate_concat (h : ∀ line ∈ lines, '\n' ∉ line) :
    pieces '\n' (['\n'].intercalate lines ++ ['\n']) =
      (if lines = [] then [[]] else lines) ++ [[]] := by
  rw [pieces_append_cons]
  split
  · next hlines => rw [hlines]; rfl
  · next hlines => rw [pieces_intercalate hlines h]; rfl

theorem IsLines.pieces_normalizeLines (h : IsLines text lines) :
    pieces '\n' (normalizeLines text) =
      (if tidyLines lines = [] then [[]] else tidyLines lines) ++ [[]] := by
  rw [normalizeLines_eq h, pieces_intercalate_concat h.notMem_tidyLines]

theorem normalizeLines_idem (text : List Char) :
    normalizeLines (normalizeLines text) = normalizeLines text := by
  have h := isLines_pieces text
  have htidy : tidyLines (pieces '\n' (normalizeLines text)) = tidyLines (pieces '\n' text) := by
    rw [h.pieces_normalizeLines, tidyLines_concat_nil]
    split
    · next hnil => rw [hnil]; rfl
    · exact tidyLines_idem _
  rw [normalizeLines_eq (isLines_pieces (normalizeLines text)), htidy, ← normalizeLines_eq h]

/-- No line of a normalized text, however it is read, has white space at its end. -/
theorem IsLines.getLast?_of_normalized {c : Char} (h : IsLines (normalizeLines text) lines)
    (hline : line ∈ lines) (hc : c ∈ line.getLast?) : isBlank c = false := by
  have hpiece : ∀ piece ∈ pieces '\n' (normalizeLines text), ∀ c ∈ piece.getLast?,
      isBlank c = false := by
    intro piece hmem c hc
    rw [(isLines_pieces text).pieces_normalizeLines] at hmem
    split at hmem
    · next => simp at hmem; simp [hmem] at hc
    · next =>
      rcases List.mem_append.1 hmem with hmem | hmem
      · exact getLast?_of_mem_tidyLines hmem hc
      · rw [List.mem_singleton.1 hmem] at hc
        cases hc
  rcases h.mem_pieces line hline with hmem | hmem
  · exact hpiece line hmem c hc
  · cases hpiece _ hmem '\r' (by simp)

theorem withoutReturn_eq_self (h : ∀ c ∈ line.getLast?, isBlank c = false) :
    withoutReturn line = line := by
  unfold withoutReturn
  split
  · next hreturn => cases h '\r' hreturn
  · rfl

theorem IsLines.linesOf_normalizeLines (h : IsLines text lines) (hne : tidyLines lines ≠ []) :
    linesOf (normalizeLines text) = tidyLines lines := by
  have hpieces : pieces '\n' (normalizeLines text) = tidyLines lines ++ [[]] := by
    rw [h.pieces_normalizeLines, if_neg hne]
  have hends : (tidyLines lines).map withoutReturn = tidyLines lines := by
    conv_rhs => rw [← List.map_id (tidyLines lines)]
    exact List.map_congr_left fun line hline =>
      withoutReturn_eq_self fun c hc => getLast?_of_mem_tidyLines hline hc
  simp [linesOf, hpieces, hends]

theorem normalizeLines_eq_singleton_iff :
    normalizeLines text = ['\n'] ↔ ∀ c ∈ text, isBlank c = true := by
  have h := isLines_pieces text
  rw [normalizeLines_eq h, List.append_left_eq_self, intercalate_eq_nil (by simp),
    or_iff_left (tidyLines_ne_singleton _), tidyLines_eq_nil_iff,
    h.forall_mem_iff (p := fun c => isBlank c = true) rfl rfl]

/-- A text in normal form: it ends with exactly one line feed, no line has white space at its end,
and its lines are the tidy lines of the text that it is the normal form of. -/
structure IsNormalOf (text normal : List Char) : Prop where
  ends : ∃ front, normal = front ++ ['\n'] ∧ '\n' ∉ front.getLast?
  trimmed : ∀ lines, IsLines normal lines → ∀ line ∈ lines, ∀ c ∈ line.getLast?, isBlank c = false
  readable : ∃ lines, IsLines text lines
  text_eq : ∀ lines, IsLines text lines → normal = ['\n'].intercalate (tidyLines lines) ++ ['\n']
  lines_eq : ∀ lines, IsLines text lines → tidyLines lines ≠ [] → linesOf normal = tidyLines lines
  blank : normal = ['\n'] ↔ ∀ c ∈ text, isBlank c = true

theorem isNormalOf_normalizeLines (text : List Char) : IsNormalOf text (normalizeLines text) where
  ends := by
    refine ⟨_, rfl, fun hfeed => ?_⟩
    cases getLast?_dropEndWhile hfeed
  trimmed lines h line hline c hc := h.getLast?_of_normalized hline hc
  readable := ⟨_, isLines_pieces text⟩
  text_eq lines h := normalizeLines_eq h
  lines_eq lines h hne := h.linesOf_normalizeLines hne
  blank := normalizeLines_eq_singleton_iff

/-- The post-processor brings every text into its normal form, and a second run changes nothing. -/
theorem whitespace_normalized (outputs : Table String) : ∃ result,
    normalizeWhitespace.process outputs = .ok result ∧
    normalizeWhitespace.process result = .ok result ∧
    result.keys = outputs.keys ∧
    ∀ extension text, outputs.get? extension = some text →
      ∃ normal, result.get? extension = some normal ∧ IsNormalOf text.toList normal.toList := by
  refine ⟨outputs.map normalizeText, rfl, ?_, ?_, fun extension text htext => ?_⟩
  · have hidem : normalizeText ∘ normalizeText = normalizeText := by
      funext text
      rw [Function.comp_apply, normalizeText, normalizeText, String.toList_ofList,
        normalizeLines_idem]
    have htwice : (outputs.map normalizeText).map normalizeText = outputs.map normalizeText := by
      apply Table.ext_get?
      intro extension
      rw [Table.get?_map, Table.get?_map, Option.map_map, hidem]
    exact congrArg Except.ok htwice
  · simp [Table.keys]
  · refine ⟨normalizeText text, ?_, ?_⟩
    · rw [Table.get?_map, htext]
      rfl
    · rw [normalizeText, String.toList_ofList]
      exact isNormalOf_normalizeLines text.toList

def untidy : Table String :=
  Table.ofList [("css", ""), ("js", "a \t\r\n\r\n b\r\rc\u2003\x0b\n\u3000\n\r")]

theorem whitespace_normalized_untidy : ∃ result normal,
    normalizeWhitespace.process untidy = .ok result ∧
    normalizeWhitespace.process result = .ok result ∧
    result.get? "js" = some normal ∧ normal.toList = "a\n\n b\r\rc\n".toList := by
  obtain ⟨result, hresult, htwice, -, hnormal⟩ := whitespace_normalized untidy
  obtain ⟨normal, hget, h⟩ := hnormal "js" _ rfl
  refine ⟨result, normal, hresult, htwice, hget, ?_⟩
  rw [h.text_eq _ (isLines_pieces _)]
  decide

end Sitewright
