import Sitewright.Proofs.Toml.Keeping
import Sitewright.Proofs.Toml.Strings

/-!
# Lines of a TOML document

What the reader makes of a blank line, a comment, the header of a table, and a bare key with a
string.
-/

namespace Sitewright.Toml

variable {word comment rest s : List Char} {c : Char} {count : Nat} {p : Progress}

structure IsBare (word : List Char) : Prop where
  ne_nil : word ≠ []
  forall_mem : ∀ c ∈ word, isBareKeyChar c = true

instance (word : List Char) : Decidable (IsBare word) :=
  decidable_of_iff (word ≠ [] ∧ word.all isBareKeyChar = true)
    ⟨fun h => ⟨h.1, List.all_eq_true.1 h.2⟩, fun h => ⟨h.ne_nil, List.all_eq_true.2 h.forall_mem⟩⟩

theorem takeWhile_append_cons {p : Char → Bool} (hword : ∀ c ∈ word, p c = true)
    (hc : p c = false) (rest : List Char) : (word ++ c :: rest).takeWhile p = word := by
  rw [List.takeWhile_append_of_pos hword, List.takeWhile_cons_of_neg (by simp [hc]),
    List.append_nil]

theorem dropWhile_append_cons {p : Char → Bool} (hword : ∀ c ∈ word, p c = true)
    (hc : p c = false) (rest : List Char) : (word ++ c :: rest).dropWhile p = c :: rest := by
  rw [List.dropWhile_append_of_pos hword, List.dropWhile_cons_of_neg (by simp [hc])]

theorem ne_of_isBareKeyChar (h : isBareKeyChar c = true) {other : Char}
    (hother : isBareKeyChar other = false) : c ≠ other := by
  rintro rfl
  rw [h] at hother
  cases hother

/-- The first character of a key begins nothing else. -/
theorem IsBare.append_ne_cons (hword : IsBare word) (hc : isBareKeyChar c = false)
    (s rest : List Char) : word ++ s ≠ c :: rest := by
  obtain ⟨a, word, rfl⟩ := List.exists_cons_of_ne_nil hword.ne_nil
  have ha := hword.forall_mem a List.mem_cons_self
  exact fun heq => ne_of_isBareKeyChar ha hc (List.cons.inj heq).1

theorem keyPart?_bare {word : String} (hword : IsBare word.toList)
    (hc : isBareKeyChar c = false) :
    keyPart? (word.toList ++ c :: rest) = some (word, c :: rest) := by
  have htake := takeWhile_append_cons hword.forall_mem hc rest
  have hdrop := dropWhile_append_cons hword.forall_mem hc rest
  have hempty : word.toList.isEmpty = false := by simpa using hword.ne_nil
  rw [keyPart?.eq_def]
  split
  · next heq => exact absurd heq (hword.append_ne_cons (by decide) _ _)
  · next heq => exact absurd heq (hword.append_ne_cons (by decide) _ _)
  · rw [htake, hdrop]
    simp only [hempty, Bool.false_eq_true, if_false, String.ofList_toList]

theorem key?_bare {word : String} (hword : IsBare word.toList) (hc : isBareKeyChar c = false)
    (hdot : ∀ later, skipSpaces (c :: rest) ≠ '.' :: later) :
    key? (count + 1) (word.toList ++ c :: rest) = some ([word], skipSpaces (c :: rest)) := by
  rw [key?, keyPart?_bare hword hc]
  simp only [Option.bind_eq_bind, Option.bind_some]
  rfl

theorem skipSpaces_bare (hword : IsBare word) (rest : List Char) :
    skipSpaces (word ++ rest) = word ++ rest := by
  obtain ⟨a, word, rfl⟩ := List.exists_cons_of_ne_nil hword.ne_nil
  have ha := hword.forall_mem a List.mem_cons_self
  have hspace : a ≠ ' ' := ne_of_isBareKeyChar ha (by decide)
  have htab : a ≠ '\t' := ne_of_isBareKeyChar ha (by decide)
  exact List.dropWhile_cons_of_neg (by simp [isSpace, hspace, htab])

/-! ## Lines -/

theorem lines?_blank : lines? (count + 1) p ('\n' :: rest) = lines? count p rest := rfl

theorem lines?_comment (h : comment.all isPrintable = true) :
    lines? (count + 1) p ('#' :: (comment ++ '\n' :: rest)) = lines? count p rest := by
  have hdrop : dropComment (comment ++ '\n' :: rest) = '\n' :: rest := by
    refine dropWhile_append_cons (fun c hc => ?_) (by decide) rest
    have hprintable := List.all_eq_true.1 h c hc
    have hline : c ≠ '\n' := by
      rintro rfl
      exact absurd hprintable (by decide)
    simp [hline, hprintable]
  have hend : endLine? ('#' :: (comment ++ '\n' :: rest)) = some rest := by
    have hskip : skipSpaces ('#' :: (comment ++ '\n' :: rest)) = '#' :: (comment ++ '\n' :: rest) :=
      rfl
    simp only [endLine?, hskip, hdrop]
  change (endLine? ('#' :: (comment ++ '\n' :: rest))).bind (lines? count p) = _
  rw [hend]
  rfl

theorem lines?_expression (hs : skipSpaces (c :: s) = c :: s) (hline : c ≠ '\n')
    (hreturn : c ≠ '\r') (hcomment : c ≠ '#') : lines? (count + 1) p (c :: s) =
      (expression? p (c :: s)).bind fun e => (endLine? e.2).bind (lines? count e.1) := by
  rw [lines?, hs]
  simp [hline, hreturn, hcomment]

theorem expression?_header {word : String} (hword : IsBare word.toList) :
    expression? p ('[' :: (word.toList ++ ']' :: rest)) =
      (p.enter [word] openTable).map (·, rest) := by
  have hkey : key? (nestingLimit - 1) (skipSpaces (word.toList ++ ']' :: rest)) =
      some ([word], ']' :: rest) := by
    rw [skipSpaces_bare hword]
    exact key?_bare hword (by decide) nofun
  rw [expression?.eq_def]
  split
  · next heq => exact absurd (List.cons.inj heq).2 (hword.append_ne_cons (by decide) _ _)
  · next heq =>
    obtain rfl := (List.cons.inj heq).2
    rw [hkey, Option.map_eq_bind]
    rfl
  · next _ hbracket => exact absurd rfl (hbracket _)

theorem lines?_header {word : String} (hword : IsBare word.toList) :
    lines? (count + 1) p ('[' :: (word.toList ++ ']' :: '\n' :: rest)) =
      (p.enter [word] openTable).bind fun p => lines? count p rest := by
  rw [lines?_expression rfl (by decide) (by decide) (by decide), expression?_header hword]
  cases p.enter [word] openTable with
  | none => rfl
  | some p => rfl

theorem expression?_setting {word : String} (hword : IsBare word.toList) :
    expression? p (word.toList ++ ' ' :: '=' :: ' ' :: '"' :: s) =
      (string? ('"' :: s)).bind fun e => (p.assign [word] (.string e.1)).map (·, e.2) := by
  have hkey : key? (nestingLimit - 1) (word.toList ++ ' ' :: '=' :: ' ' :: '"' :: s) =
      some ([word], '=' :: ' ' :: '"' :: s) :=
    key?_bare hword (by decide) nofun
  have hvalue : value? (2 * ('"' :: s).length + 2) 0 ('"' :: s) =
      (string? ('"' :: s)).map fun e => (.string e.1, e.2) := rfl
  rw [expression?.eq_def]
  split
  · next heq => exact absurd heq (hword.append_ne_cons (by decide) _ _)
  · next heq => exact absurd heq (hword.append_ne_cons (by decide) _ _)
  · rw [hkey]
    change (value? (2 * ('"' :: s).length + 2) 0 ('"' :: s)).bind (fun e =>
      (p.assign [word] e.1).bind fun p => some (p, e.2)) = _
    rw [hvalue, Option.bind_map]
    simp only [Option.map_eq_bind]
    rfl

theorem lines?_setting {word : String} (hword : IsBare word.toList) :
    lines? (count + 1) p (word.toList ++ ' ' :: '=' :: ' ' :: '"' :: s) =
      (string? ('"' :: s)).bind fun e =>
        (p.assign [word] (.string e.1)).bind fun p => (endLine? e.2).bind (lines? count p) := by
  have hexpression := expression?_setting (p := p) (s := s) hword
  have hskip := skipSpaces_bare hword (' ' :: '=' :: ' ' :: '"' :: s)
  obtain ⟨a, letters, hletters⟩ := List.exists_cons_of_ne_nil hword.ne_nil
  have ha := hword.forall_mem a (hletters ▸ List.mem_cons_self)
  rw [hletters, List.cons_append] at hskip hexpression ⊢
  rw [lines?_expression hskip (ne_of_isBareKeyChar ha (by decide))
    (ne_of_isBareKeyChar ha (by decide)) (ne_of_isBareKeyChar ha (by decide)), hexpression]
  simp only [Option.bind_assoc, Option.bind_map]
  rfl

/-- A key with a plain string is set to it. -/
theorem lines?_plain {word value : String} (hword : IsBare word.toList) (hvalue : value ≠ "")
    (hplain : IsPlainText value.toList) :
    lines? (count + 1) p
        (word.toList ++ ' ' :: '=' :: ' ' :: '"' :: (value.toList ++ '"' :: '\n' :: rest)) =
      (p.assign [word] (.string value)).bind fun p => lines? count p rest := by
  have hne : value.toList ≠ [] := fun h => hvalue (String.toList_eq_nil_iff.1 h)
  rw [lines?_setting hword, string?_of_plain hne hplain, String.ofList_toList]
  rfl

/-! ## Tables of their own -/

def opened (entries : List (String × Toml)) (table : String) (inner : List (String × Toml)) :
    Progress where
  entries := entries ++ [(table, .table .header inner)]
  path := [table]

theorem enter_new {table : String} (h : p.entries.lookup table = none) :
    p.enter [table] openTable = some (opened p.entries table []) := by
  simp [Progress.enter, changeAt, openTable, h, opened]

theorem assign_append {entries : List (String × Toml)} {table : String} {value old : Toml}
    (h : entries.lookup table = none) :
    assign table value (entries ++ [(table, old)]) = entries ++ [(table, value)] := by
  induction entries with
  | nil => simp [assign]
  | cons e entries ih =>
    obtain ⟨name, other⟩ := e
    rw [lookup_cons_eq_ite] at h
    split at h
    · cases h
    · next hname => rw [List.cons_append, assign, if_neg (Ne.symm hname), ih h, List.cons_append]

theorem assign_opened {entries inner : List (String × Toml)} {table key : String} {value : Toml}
    (h : entries.lookup table = none) (hkey : inner.lookup key = none) :
    (opened entries table inner).assign [key] value =
      some (opened entries table (inner ++ [(key, value)])) := by
  have hlookup : (entries ++ [(table, Toml.table .header inner)]).lookup table =
      some (.table .header inner) := by
    simp [List.lookup_append, h]
  have hadd : addDotted [] key value inner = some (inner ++ [(key, value)]) := by
    simp [addDotted, changeAt, addKey, hkey]
  have hchange : changeAt .header (addDotted [] key value) [table]
      (entries ++ [(table, .table .header inner)]) =
        some (entries ++ [(table, .table .header (inner ++ [(key, value)]))]) := by
    rw [changeAt, hlookup]
    simp only [changeAt, hadd, Option.map_some, assign_append h]
    rfl
  exact Option.bind_eq_some_iff.2 ⟨_, hchange, rfl⟩

end Sitewright.Toml
