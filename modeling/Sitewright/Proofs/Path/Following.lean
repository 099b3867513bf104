import Mathlib.Data.List.Induction
import Sitewright.Proofs.Text.Segments

/-!
# Following paths

A path is followed from a folder step by step: `.` stays, `..` goes up and any other step goes down.
The steps between two folders lead from the one to the other, and so does the relative prefix,
exactly when no name on the way down holds a backslash.
-/

namespace Sitewright

namespace Path

variable {start target segments : List String} {s t : String}

/-- One step from a folder. There is nothing above the root. -/
def go (folder : List String) (step : String) : Option (List String) :=
  if step = "." then some folder
  else if step = ".." then (if folder = [] then none else some folder.dropLast)
  else some (folder ++ [step])

/-- Where a path leads from a folder. -/
def follow (start : List String) (path : String) : Option (List String) :=
  (splitText '/' path).foldlM go start

/-- A segment that names a folder below. -/
structure IsName (s : String) : Prop extends IsSegment s where
  ne_dot : s ≠ "."
  ne_dots : s ≠ ".."

/-- A name that does not begin with a dot and holds no backslash. -/
structure IsPlain (s : String) : Prop extends IsSegment s where
  no_backslash : '\\' ∉ s.toList
  no_dot : s.toList.head? ≠ some '.'

theorem IsPlain.isName (h : IsPlain s) : IsName s where
  toIsSegment := h.toIsSegment
  ne_dot := by rintro rfl; exact h.no_dot rfl
  ne_dots := by rintro rfl; exact h.no_dot rfl

instance : Decidable (IsPlain s) :=
  decidable_of_iff (((s ≠ "" ∧ '/' ∉ s.toList) ∧ '\\' ∉ s.toList) ∧ s.toList.head? ≠ some '.')
    ⟨fun h => ⟨⟨h.1.1.1, h.1.1.2⟩, h.1.2, h.2⟩,
      fun h => ⟨⟨⟨h.ne_empty, h.no_slash⟩, h.no_backslash⟩, h.no_dot⟩⟩

theorem isPlain_append (hs : IsPlain s) (ht : '/' ∉ t.toList) (htb : '\\' ∉ t.toList) :
    IsPlain (s ++ t) where
  ne_empty := by simp [hs.ne_empty]
  no_slash := by simp [hs.no_slash, ht]
  no_backslash := by simp [hs.no_backslash, htb]
  no_dot := by
    have hne : s.toList ≠ [] := by simpa using hs.ne_empty
    rw [String.toList_append, List.head?_append_of_ne_nil _ hne]
    exact hs.no_dot

theorem join_of_segments (hb : ∀ s ∈ segments, IsSegment s) (hs : IsSegment s) :
    join ("/".intercalate segments) s = "/".intercalate (segments ++ [s]) := by
  have habs : isAbsolute s = false := by
    have hslash : beginsWith "/" ("/".intercalate [s]) = false :=
      beginsWith_slash_joined (by simpa using hs)
    simpa [isAbsolute] using hslash
  by_cases hn : segments = []
  · subst hn
    simp [join, habs]
  · have hne := joined_ne_empty hn hb
    rw [join, habs, endsWith_slash_joined hb, joined_append hn (by simp)]
    simp [hne]

theorem ofSegments_eq_joined (h : ∀ s ∈ segments, IsSegment s) :
    ofSegments segments = "/".intercalate segments := by
  induction segments using List.reverseRecOn with
  | nil => rfl
  | append_singleton segments s ih =>
    have hb : ∀ t ∈ segments, IsSegment t := fun t ht => h t (by simp [ht])
    rw [ofSegments, List.foldl_append, List.foldl_cons, List.foldl_nil, ← ofSegments, ih hb]
    exact join_of_segments hb (h s (by simp))

theorem steps_joined (h : ∀ s ∈ segments, IsName s) :
    steps ("/".intercalate segments) = segments := by
  have hseg : ∀ s ∈ segments, IsSegment s := fun s hs => (h s hs).toIsSegment
  cases segments with
  | nil => rfl
  | cons s segments =>
    have hsplit := splitText_joined (List.cons_ne_nil s segments) hseg
    have hnonempty : (s :: segments).filter (· ≠ "") = s :: segments :=
      List.filter_eq_self.2 fun t ht => by simpa using (h t ht).ne_empty
    have hnamed : segments.filter (· ≠ ".") = segments :=
      List.filter_eq_self.2 fun t ht => by simpa using (h t (List.mem_cons_of_mem _ ht)).ne_dot
    rw [steps, isAbsolute, beginsWith_slash_joined hseg, hsplit]
    simp only [hnonempty, Bool.false_eq_true, if_false, hnamed]

theorem divergent_nil (h : ∀ s ∈ start, IsName s) :
    divergent [] start = some (List.replicate start.length "..") := by
  induction start with
  | nil => rfl
  | cons s start ih =>
    rw [divergent, ih fun t ht => h t (List.mem_cons_of_mem _ ht)]
    rfl

/-- The steps between two folders go up to the last folder above both, and down from there. -/
theorem betweenSteps_eq (h : ∀ s ∈ start, IsName s) (target : List String) : ∃ common up down,
    start = common ++ up ∧ target = common ++ down ∧ (∀ s ∈ up.head?, s ∉ down.head?) ∧
      betweenSteps target start = some (List.replicate up.length ".." ++ down) := by
  induction start generalizing target with
  | nil => exact ⟨[], [], target, rfl, rfl, by simp, by cases target <;> rfl⟩
  | cons s start ih =>
    have hs := h s List.mem_cons_self
    cases target with
    | nil =>
      exact ⟨[], s :: start, [], rfl, rfl, by simp, by simpa [betweenSteps] using divergent_nil h⟩
    | cons t target =>
      by_cases hst : t = s
      · subst hst
        obtain ⟨common, up, down, hstart, htarget, hapart, hway⟩ :=
          ih (fun t ht => h t (List.mem_cons_of_mem _ ht)) target
        exact ⟨t :: common, up, down, by rw [hstart]; rfl, by rw [htarget]; rfl, hapart,
          by rw [betweenSteps, if_pos rfl, hway]⟩
      · refine ⟨[], s :: start, t :: target, rfl, rfl, by simpa using hst, ?_⟩
        rw [betweenSteps, if_neg hst, divergent, if_neg hs.ne_dot, if_neg hs.ne_dots]
        simp [List.replicate_succ]

theorem foldlM_go_down (h : ∀ s ∈ segments, IsName s) :
    segments.foldlM go start = some (start ++ segments) := by
  induction segments generalizing start with
  | nil => simp
  | cons s segments ih =>
    have hs := h s List.mem_cons_self
    have hgo : go start s = some (start ++ [s]) := by rw [go, if_neg hs.ne_dot, if_neg hs.ne_dots]
    rw [List.foldlM_cons, hgo]
    change segments.foldlM go (start ++ [s]) = _
    rw [ih fun t ht => h t (List.mem_cons_of_mem _ ht), List.append_assoc, List.singleton_append]

theorem foldlM_go_up {common : List String} (up : List String) :
    (List.replicate up.length "..").foldlM go (common ++ up) = some common := by
  induction up using List.reverseRecOn with
  | nil => simp
  | append_singleton up s ih =>
    have hgo : go (common ++ (up ++ [s])) ".." = some (common ++ up) := by
      simp [go, ← List.append_assoc]
    rw [List.length_append, List.length_singleton, List.replicate_succ, List.foldlM_cons, hgo]
    exact ih

theorem follow_append (start : List String) (s t : String) :
    follow start (s ++ "/" ++ t) = (follow start s).bind fun folder => follow folder t := by
  rw [follow, splitText_append '/' s t, List.foldlM_append]
  rfl

theorem follow_joined (hne : segments ≠ []) (h : ∀ s ∈ segments, IsName s) :
    follow start ("/".intercalate segments) = some (start ++ segments) := by
  rw [follow, splitText_joined hne fun s hs => (h s hs).toIsSegment]
  exact foldlM_go_down h

/-- Where steps lead to is a folder above the first one, followed by some of the steps. -/
theorem exists_kept_of_foldlM_go {taken folder : List String}
    (h : taken.foldlM go start = some folder) :
    ∃ kept rest, kept <+: start ∧ folder = kept ++ rest ∧ ∀ s ∈ rest, s ∈ taken := by
  induction taken generalizing start with
  | nil =>
    obtain rfl : start = folder := by simpa using h
    exact ⟨start, [], List.prefix_rfl, (List.append_nil start).symm, by simp⟩
  | cons step taken ih =>
    rw [List.foldlM_cons] at h
    obtain ⟨next, hnext, hfold⟩ := Option.bind_eq_some_iff.1 h
    obtain ⟨kept, rest, hkept, rfl, hrest⟩ := ih hfold
    have hmem : ∀ s ∈ rest, s ∈ step :: taken := fun s hs => List.mem_cons_of_mem _ (hrest s hs)
    unfold go at hnext
    split at hnext
    · obtain rfl := Option.some.inj hnext
      exact ⟨kept, rest, hkept, rfl, hmem⟩
    · split at hnext
      · split at hnext
        · cases hnext
        · obtain rfl := Option.some.inj hnext
          exact ⟨kept, rest, hkept.trans (List.dropLast_prefix start), rfl, hmem⟩
      · obtain rfl := Option.some.inj hnext
        rcases List.prefix_concat_iff.1 hkept with rfl | hkept
        · refine ⟨start, step :: rest, List.prefix_rfl, by simp, ?_⟩
          rw [List.forall_mem_cons]
          exact ⟨List.mem_cons_self, hmem⟩
        · exact ⟨kept, rest, hkept, rfl, hmem⟩

/-- A folder that the first one parts from is reached by its own steps only. -/
theorem mem_steps_of_follow {common up down : List String} {path : String}
    (hapart : ∀ s ∈ up.head?, s ∉ down.head?)
    (h : follow (common ++ up) path = some (common ++ down)) :
    ∀ s ∈ down, s ∈ splitText '/' path := by
  obtain ⟨kept, rest, hkept, heq, hrest⟩ := exists_kept_of_foldlM_go h
  intro s hs
  apply hrest
  rcases List.append_eq_append_iff.1 heq with ⟨deeper, rfl, rfl⟩ | ⟨higher, rfl, rfl⟩
  · -- the steps turn back below the last folder above both
    cases deeper with
    | nil => exact hs
    | cons t deeper =>
      obtain ⟨more, hmore⟩ := (List.prefix_append_right_inj common).1 hkept
      subst hmore
      exact absurd rfl (hapart t rfl)
  · exact List.mem_append_right _ hs

end Path

open Sitewright.Path

variable {start target segments common up down : List String} {c : Char}

theorem isPlain_no_backslash {steps : List String} (h : ∀ s ∈ steps, '\\' ∉ s.toList) :
    '\\' ∉ ("/".intercalate steps).toList := by
  intro hb
  rcases mem_joined hb with hb | ⟨s, hs, hb⟩
  · exact absurd hb (by decide)
  · exact h s hs hb

theorem backslash_notMem_way (up : List String) (h : ∀ s ∈ down, '\\' ∉ s.toList) :
    '\\' ∉ ("/".intercalate (List.replicate up.length ".." ++ down)).toList := by
  apply isPlain_no_backslash
  intro s hs
  rcases List.mem_append.1 hs with hs | hs
  · rw [List.eq_of_mem_replicate hs]
    decide
  · exact h s hs

def prefixSteps (up down : List String) : List String :=
  (if up = [] then ["."] else List.replicate up.length "..") ++ down

theorem isSegment_dots : IsSegment ".." := ⟨by decide, by decide⟩

theorem isSegment_way (up : List String) {down : List String} (h : ∀ s ∈ down, IsSegment s) :
    ∀ s ∈ List.replicate up.length ".." ++ down, IsSegment s := by
  intro s hs
  rcases List.mem_append.1 hs with hs | hs
  · rw [List.eq_of_mem_replicate hs]
    exact isSegment_dots
  · exact h s hs

theorem isSegment_prefixSteps {up down : List String} (h : ∀ s ∈ down, IsSegment s) :
    ∀ s ∈ prefixSteps up down, IsSegment s := by
  by_cases hup : up = []
  · intro s hs
    rw [prefixSteps, if_pos hup] at hs
    rcases List.mem_append.1 hs with hs | hs
    · rw [List.mem_singleton.1 hs]
      exact ⟨by decide, by decide⟩
    · exact h s hs
  · rw [prefixSteps, if_neg hup]
    exact isSegment_way up h

theorem between_joined (hs : ∀ s ∈ start, IsName s) (ht : ∀ t ∈ target, IsName t) :
    ∃ common up down, start = common ++ up ∧ target = common ++ down ∧
      (∀ s ∈ up.head?, s ∉ down.head?) ∧
      between (ofSegments start) (ofSegments target) =
        some ("/".intercalate (List.replicate up.length ".." ++ down)) := by
  have hseg {l : List String} (h : ∀ s ∈ l, IsName s) : ∀ s ∈ l, IsSegment s :=
    fun s hs => (h s hs).toIsSegment
  obtain ⟨common, up, down, hstart, htarget, hapart, hway⟩ := betweenSteps_eq hs target
  refine ⟨common, up, down, hstart, htarget, hapart, ?_⟩
  have hdown : ∀ s ∈ down, IsSegment s := fun s hs => hseg ht s (by simp [htarget, hs])
  rw [ofSegments_eq_joined (hseg hs), ofSegments_eq_joined (hseg ht), between, isAbsolute,
    isAbsolute, beginsWith_slash_joined (hseg hs), beginsWith_slash_joined (hseg ht),
    steps_joined hs, steps_joined ht, hway]
  simp only [ne_eq, not_true, if_false, Option.map_some]
  rw [ofSegments_eq_joined (isSegment_way up hdown)]

theorem relativePrefix_eq_joined (hs : ∀ s ∈ start, IsPlain s) (ht : ∀ t ∈ target, IsPlain t) :
    ∃ common up down, start = common ++ up ∧ target = common ++ down ∧
      relativePrefix start target = "/".intercalate (prefixSteps up down) := by
  obtain ⟨common, up, down, hstart, htarget, -, hway⟩ :=
    between_joined (fun s h => (hs s h).isName) (fun t h => (ht t h).isName)
  refine ⟨common, up, down, hstart, htarget, ?_⟩
  have hdown : ∀ t ∈ down, IsPlain t := fun t h => ht t (by simp [htarget, h])
  have hsegments := isSegment_way up fun t h => (hdown t h).toIsSegment
  have hclean := backslash_notMem_way up fun t h => (hdown t h).no_backslash
  rw [relativePrefix, hway, Option.getD_some, replaceChar_of_notMem hclean]
  cases up with
  | nil =>
    cases down with
    | nil => rfl
    | cons t down =>
      have hplain := hdown t List.mem_cons_self
      have hdots : beginsWith ".." ("/".intercalate (t :: down)) = false := by
        rw [← Bool.not_eq_true, beginsWith_iff]
        rintro ⟨rest, hrest⟩
        have hhead := joined_head? hplain.toIsSegment down
        rw [← hrest] at hhead
        exact hplain.no_dot hhead.symm
      have hne := joined_ne_empty (List.cons_ne_nil t down) hsegments
      simp only [List.length_nil, List.replicate_zero, List.nil_append, hdots, prefixSteps, if_true,
        List.singleton_append, String.isEmpty_iff, hne, if_false, Bool.false_eq_true]
      rw [String.intercalate_cons_of_ne_nil (List.cons_ne_nil t down)]
      rfl
  | cons s up =>
    have hdots : beginsWith ".." ("/".intercalate
        (List.replicate (s :: up).length ".." ++ down)) = true := by
      rw [List.length_cons, List.replicate_succ, List.cons_append, beginsWith_iff]
      by_cases hn : List.replicate up.length ".." ++ down = []
      · simp [hn]
      · rw [String.intercalate_cons_of_ne_nil hn]
        simp only [String.toList_append, List.append_assoc]
        exact List.prefix_append _ _
    have hne := joined_ne_empty (by simp) hsegments
    simp only [hdots, if_true, String.isEmpty_iff, hne, if_false, prefixSteps, reduceCtorEq]

def slashed (c : Char) : Char := if c = '\\' then '/' else c

theorem toList_replaceChar (s : String) :
    (replaceChar '\\' "/" s).toList = s.toList.map slashed := by
  rw [replaceChar, String.toList_ofList, ← List.flatMap_singleton' (s.toList.map slashed),
    List.flatMap_map]
  apply List.flatMap_congr
  intro c _
  unfold slashed
  split <;> rfl

theorem slashed_ne_backslash (c : Char) : slashed c ≠ '\\' := by
  unfold slashed
  split
  · decide
  · next h => exact h

theorem backslash_notMem_replaceChar (s : String) : '\\' ∉ (replaceChar '\\' "/" s).toList := by
  rw [toList_replaceChar, List.mem_map]
  rintro ⟨c, -, hc⟩
  exact slashed_ne_backslash c hc

theorem backslash_notMem_relativePrefix (start target : List String) :
    '\\' ∉ (relativePrefix start target).toList := by
  simp only [relativePrefix]
  split
  · decide
  · split
    · exact backslash_notMem_replaceChar _
    · rw [String.toList_append, List.mem_append, not_or]
      exact ⟨by decide, backslash_notMem_replaceChar _⟩

theorem follow_way (hne : List.replicate up.length ".." ++ down ≠ [])
    (hdown : ∀ s ∈ down, IsName s) :
    follow (common ++ up) ("/".intercalate (List.replicate up.length ".." ++ down)) =
      some (common ++ down) := by
  rw [follow, splitText_joined hne (isSegment_way up fun s hs => (hdown s hs).toIsSegment),
    List.foldlM_append, foldlM_go_up up]
  exact foldlM_go_down hdown

theorem follow_relativePrefix_of_between {way : String} (hne : way ≠ "")
    (h : between (ofSegments start) (ofSegments target) = some way) :
    follow start (relativePrefix start target) = follow start (replaceChar '\\' "/" way) := by
  have htext : replaceChar '\\' "/" way ≠ "" := by
    intro hempty
    have hmap := toList_replaceChar way
    rw [hempty, eq_comm, String.toList_empty, List.map_eq_nil_iff] at hmap
    exact hne (String.toList_eq_nil_iff.1 hmap)
  simp only [relativePrefix, h, Option.getD_some, String.isEmpty_iff, htext, if_false]
  split
  · rfl
  · exact (follow_append start "." _).trans rfl

theorem follow_relativePrefix_iff (hapart : ∀ s ∈ up.head?, s ∉ down.head?)
    (hdown : ∀ s ∈ down, IsName s)
    (h : between (ofSegments (common ++ up)) (ofSegments (common ++ down)) =
      some ("/".intercalate (List.replicate up.length ".." ++ down))) :
    follow (common ++ up) (relativePrefix (common ++ up) (common ++ down)) = some (common ++ down) ↔
      ∀ s ∈ down, '\\' ∉ s.toList := by
  constructor
  · intro hfollow s hs hbackslash
    have hstep := mem_steps_of_follow hapart hfollow s hs
    exact backslash_notMem_relativePrefix _ _ (mem_of_mem_splitText hstep hbackslash)
  · intro hclean
    by_cases hne : List.replicate up.length ".." ++ down = []
    · rw [hne] at h
      obtain ⟨rfl, rfl⟩ : up = [] ∧ down = [] := by simpa using hne
      rw [relativePrefix, h]
      rfl
    · have hsegments := isSegment_way up fun s hs => (hdown s hs).toIsSegment
      rw [follow_relativePrefix_of_between (joined_ne_empty hne hsegments) h,
        replaceChar_of_notMem (backslash_notMem_way up hclean), follow_way hne hdown]

/-- The relative prefix between two plain folders leads from the one to the other. -/
theorem follow_relativePrefix (hs : ∀ s ∈ start, IsPlain s) (ht : ∀ t ∈ target, IsPlain t) :
    follow start (relativePrefix start target) = some target := by
  have hnames : ∀ t ∈ target, IsName t := fun t h => (ht t h).isName
  obtain ⟨common, up, down, rfl, rfl, hapart, hway⟩ :=
    between_joined (fun s h => (hs s h).isName) hnames
  refine (follow_relativePrefix_iff hapart (fun t h => hnames t (by simp [h])) hway).2 ?_
  exact fun t h => (ht t (by simp [h])).no_backslash

theorem dropEndSlashes_of_not_endsWith {s : String} (h : endsWithText "/" s = false) :
    dropEndSlashes s = s := by
  have hdrop : s.toList.reverse.dropWhile (· == '/') = s.toList.reverse := by
    cases hl : s.toList.reverse with
    | nil => rfl
    | cons c rest =>
      have hc : c ≠ '/' := by
        rintro rfl
        rw [← Bool.not_eq_true, endsWithText_iff] at h
        exact h ⟨rest.reverse, by rw [← List.reverse_reverse s.toList, hl]; simp⟩
      rw [List.dropWhile_cons_of_neg (by simpa using hc)]
  rw [dropEndSlashes, hdrop, List.reverse_reverse, String.ofList_toList]

/-- A module path below a prefix, neither of which has to be trimmed. -/
theorem joinModulePath_eq {modulePrefix path : String} (hp : endsWithText "/" modulePrefix = false)
    (hne : path ≠ "") (hslash : path.toList.head? ≠ some '/')
    (hdot : path.toList.head? ≠ some '.') :
    joinModulePath modulePrefix path = modulePrefix ++ "/" ++ path := by
  have hrest : (dropRepeated ['.', '/'] path.toList).dropWhile (· == '/') = path.toList := by
    cases hl : path.toList with
    | nil => exact absurd hl (by simpa using hne)
    | cons c rest =>
      rw [hl, List.head?_cons, ne_eq, Option.some.injEq] at hslash hdot
      rw [dropRepeated, if_neg (by simp [Ne.symm hdot]),
        List.dropWhile_cons_of_neg (by simpa using hslash)]
  rw [joinModulePath, dropEndSlashes_of_not_endsWith hp, hrest, String.ofList_toList]
  simp only [String.isEmpty_iff, hne, if_false]

/-- A module below a plain folder is found by the relative prefix joined with its path. -/
theorem follow_joinModulePath (hs : ∀ s ∈ start, IsPlain s) (ht : ∀ t ∈ target, IsPlain t)
    (hne : segments ≠ []) (hsegments : ∀ s ∈ segments, IsPlain s) :
    follow start (joinModulePath (relativePrefix start target) ("/".intercalate segments)) =
      some (target ++ segments) := by
  have hplain : ∀ s ∈ segments, IsSegment s := fun s h => (hsegments s h).toIsSegment
  have hend : endsWithText "/" (relativePrefix start target) = false := by
    obtain ⟨common, up, down, rfl, rfl, hway⟩ := relativePrefix_eq_joined hs ht
    rw [hway]
    exact endsWith_slash_joined (isSegment_prefixSteps fun t h =>
      (ht t (by simp [h])).toIsSegment)
  have hhead : ∃ s ∈ segments, ("/".intercalate segments).toList.head? = s.toList.head? := by
    cases segments with
    | nil => exact absurd rfl hne
    | cons s segments =>
      exact ⟨s, List.mem_cons_self, joined_head? (hplain s List.mem_cons_self) segments⟩
  obtain ⟨s, hmem, hhead⟩ := hhead
  have hslash : s.toList.head? ≠ some '/' := fun h =>
    (hplain s hmem).no_slash (List.mem_of_head? h)
  rw [joinModulePath_eq hend (joined_ne_empty hne hplain) (hhead ▸ hslash)
    (hhead ▸ (hsegments s hmem).no_dot), follow_append, follow_relativePrefix hs ht,
    Option.bind_some, follow_joined hne fun s h => (hsegments s h).isName]

end Sitewright
