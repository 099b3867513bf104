import Mathlib.Data.List.Basic
import Sitewright.Path

/-!
# Texts made of segments

Segments without slashes, joined by single slashes, are got back by cutting the text at its slashes.
-/

namespace Sitewright

variable {α : Type} [DecidableEq α] {sep : α} {a b : List α}

theorem pieces_append_cons : pieces sep (a ++ sep :: b) = pieces sep a ++ pieces sep b := by
  induction a with
  | nil => simp [pieces]
  | cons c a ih =>
    simp only [pieces, List.cons_append, List.foldr_cons] at ih ⊢
    by_cases hc : c = sep
    · simp [hc, ih]
    · rw [if_neg hc, if_neg hc, ih]
      cases hp : a.foldr _ _ with
      | nil => exact absurd hp (pieces_ne_nil sep a)
      | cons piece rest => rfl

theorem pieces_of_notMem (h : sep ∉ a) : pieces sep a = [a] := by
  induction a with
  | nil => rfl
  | cons c a ih =>
    obtain ⟨hc, ha⟩ := not_or.1 (List.mem_cons.not.1 h)
    have hrest := ih ha
    simp only [pieces, List.foldr_cons] at hrest ⊢
    rw [if_neg (Ne.symm hc), hrest]

theorem splitText_append (sep : Char) (s t : String) :
    splitText sep (s ++ String.ofList [sep] ++ t) = splitText sep s ++ splitText sep t := by
  simp only [splitText, String.toList_append, String.toList_ofList, List.append_assoc,
    List.singleton_append, pieces_append_cons, List.map_append]

theorem splitText_of_notMem {sep : Char} {s : String} (h : sep ∉ s.toList) :
    splitText sep s = [s] := by
  simp [splitText, pieces_of_notMem h]

theorem mem_of_mem_pieces {x : α} {l piece : List α} (h : piece ∈ pieces sep l) (hx : x ∈ piece) :
    x ∈ l := by
  induction l generalizing piece with
  | nil =>
    obtain rfl : piece = [] := by simpa [pieces] using h
    cases hx
  | cons y l ih =>
    simp only [pieces, List.foldr_cons] at h ih
    split at h
    · rcases List.mem_cons.1 h with rfl | h
      · cases hx
      · exact List.mem_cons_of_mem y (ih h hx)
    · split at h
      · obtain rfl : piece = [y] := by simpa using h
        exact List.mem_cons.2 (.inl (List.mem_singleton.1 hx))
      · next first others hpieces =>
        rw [hpieces] at ih
        rcases List.mem_cons.1 h with rfl | h
        · rcases List.mem_cons.1 hx with rfl | hx
          · exact List.mem_cons_self
          · exact List.mem_cons_of_mem y (ih List.mem_cons_self hx)
        · exact List.mem_cons_of_mem y (ih (List.mem_cons_of_mem first h) hx)

theorem mem_of_mem_splitText {sep c : Char} {s t : String} (h : t ∈ splitText sep s)
    (hc : c ∈ t.toList) : c ∈ s.toList := by
  obtain ⟨piece, hpiece, rfl⟩ := List.mem_map.1 h
  rw [String.toList_ofList] at hc
  exact mem_of_mem_pieces hpiece hc

structure IsSegment (s : String) : Prop where
  ne_empty : s ≠ ""
  no_slash : '/' ∉ s.toList

variable {segments rest : List String} {s : String} {c : Char}

theorem joined_append (hs : segments ≠ []) (hr : rest ≠ []) :
    "/".intercalate (segments ++ rest) = "/".intercalate segments ++ "/" ++ "/".intercalate rest :=
  String.intercalate_append_of_ne_nil hs hr

theorem splitText_joined (hne : segments ≠ []) (h : ∀ s ∈ segments, IsSegment s) :
    splitText '/' ("/".intercalate segments) = segments := by
  induction segments with
  | nil => exact absurd rfl hne
  | cons s segments ih =>
    have hs : splitText '/' s = [s] := splitText_of_notMem (h s List.mem_cons_self).no_slash
    by_cases hn : segments = []
    · subst hn
      simpa using hs
    · rw [String.intercalate_cons_of_ne_nil hn]
      exact (splitText_append '/' s _).trans
        (by rw [hs, ih hn fun t ht => h t (List.mem_cons_of_mem _ ht)]; rfl)

theorem mem_joined (hc : c ∈ ("/".intercalate segments).toList) :
    c = '/' ∨ ∃ s ∈ segments, c ∈ s.toList := by
  induction segments with
  | nil => simp at hc
  | cons s segments ih =>
    by_cases hn : segments = []
    · subst hn
      exact .inr ⟨s, List.mem_cons_self, by simpa using hc⟩
    · rw [String.intercalate_cons_of_ne_nil hn] at hc
      simp only [String.toList_append, List.mem_append] at hc
      rcases hc with (hc | hc) | hc
      · exact .inr ⟨s, List.mem_cons_self, hc⟩
      · exact .inl (by simpa using hc)
      · rcases ih hc with hc | ⟨t, ht, hc⟩
        · exact .inl hc
        · exact .inr ⟨t, List.mem_cons_of_mem _ ht, hc⟩

theorem joined_head? (h : IsSegment s) (rest : List String) :
    ("/".intercalate (s :: rest)).toList.head? = s.toList.head? := by
  have hs : s.toList ≠ [] := by simpa using h.ne_empty
  by_cases hr : rest = []
  · subst hr
    simp
  · rw [String.intercalate_cons_of_ne_nil hr, String.toList_append, String.toList_append,
      List.append_assoc, List.head?_append_of_ne_nil _ hs]

theorem joined_getLast? (h : IsSegment s) (segments : List String) :
    ("/".intercalate (segments ++ [s])).toList.getLast? = s.toList.getLast? := by
  have hs : s.toList ≠ [] := by simpa using h.ne_empty
  by_cases hn : segments = []
  · subst hn
    simp
  · rw [joined_append hn (by simp), String.toList_append, List.getLast?_append_of_ne_nil]
    · simp
    · simpa using hs

theorem joined_ne_empty (hne : segments ≠ []) (h : ∀ s ∈ segments, IsSegment s) :
    "/".intercalate segments ≠ "" := by
  cases segments with
  | nil => exact absurd rfl hne
  | cons s segments =>
    intro he
    have hhead := joined_head? (h s List.mem_cons_self) segments
    rw [he] at hhead
    exact (h s List.mem_cons_self).ne_empty (by simpa using hhead.symm)

theorem beginsWith_iff {start : String} : beginsWith start s = true ↔ start.toList <+: s.toList :=
  List.isPrefixOf_iff_prefix

theorem endsWithText_iff {ending : String} :
    endsWithText ending s = true ↔ ending.toList <:+ s.toList :=
  List.isSuffixOf_iff_suffix

theorem beginsWith_slash_joined (h : ∀ s ∈ segments, IsSegment s) :
    beginsWith "/" ("/".intercalate segments) = false := by
  cases segments with
  | nil => rfl
  | cons s segments =>
    have hs := h s List.mem_cons_self
    rw [← Bool.not_eq_true, beginsWith_iff]
    rintro ⟨t, ht⟩
    have hhead := joined_head? hs segments
    rw [← ht] at hhead
    exact hs.no_slash (List.mem_of_head? hhead.symm)

theorem endsWith_slash_joined (h : ∀ s ∈ segments, IsSegment s) :
    endsWithText "/" ("/".intercalate segments) = false := by
  rcases List.eq_nil_or_concat segments with rfl | ⟨init, s, rfl⟩
  · rfl
  · have hs := h s (by simp)
    rw [← Bool.not_eq_true, endsWithText_iff]
    rintro ⟨t, ht⟩
    have hlast := joined_getLast? hs init
    rw [← List.concat_eq_append, ← ht, show "/".toList = ['/'] from rfl,
      List.getLast?_concat] at hlast
    exact hs.no_slash (List.mem_of_getLast? hlast.symm)

theorem replaceChar_of_notMem {old : Char} {new : String} (h : old ∉ s.toList) :
    replaceChar old new s = s := by
  have hsame : s.toList.flatMap (fun c => if c = old then new.toList else [c]) = s.toList := by
    rw [List.flatMap_congr (g := fun c => [c])]
    · simp
    · intro c hc
      rw [if_neg (by rintro rfl; exact h hc)]
  rw [replaceChar, hsame, String.ofList_toList]

end Sitewright
