import Sitewright.Proofs.Path.Following
import Sitewright.Proofs.Project.Below

/-!
# Relative prefixes

The folders that pass the checks of a strategy may have names that begin with dots or hold
backslashes. The prefix between two such folders is relative, unless it goes down only and to a name
that begins like the step that goes up; and it leads from the one folder to the other exactly when
there is no backslash in a name on the way down.
-/

namespace Sitewright

open Sitewright.Path

variable {start target up down segments : List String} {s path area : String} {c : Char}

/-- A prefix that says of a module path that it starts from the folder of the module itself. -/
def IsRelative (path : String) : Prop :=
  path = "." ∨ path = ".." ∨ beginsWith "./" path = true ∨ beginsWith "../" path = true

instance : Decidable (IsRelative path) :=
  inferInstanceAs (Decidable (_ ∨ _ ∨ _ ∨ _))

theorem isName_of_checkPath (h : Strategy.checkPath area segments = .ok ()) :
    ∀ s ∈ segments, IsName s := by
  intro s hs
  have hgood := Strategy.checkPath_ok_iff.1 h s hs
  simp only [Strategy.isBadSegment, Bool.or_eq_false_iff, String.isEmpty_eq_false_iff,
    decide_eq_false_iff_not, List.contains_eq_mem] at hgood
  obtain ⟨⟨⟨hempty, hdot⟩, hdots⟩, hslash⟩ := hgood
  exact ⟨⟨hempty, hslash⟩, hdot, hdots⟩

theorem slashed_eq_dot_iff : slashed c = '.' ↔ c = '.' := by
  unfold slashed
  split
  · next h => simp [h]
  · rfl

theorem beginsWith_dots_iff : beginsWith ".." s = true ↔ ∃ l, s.toList = '.' :: '.' :: l := by
  rw [beginsWith_iff]
  constructor
  · rintro ⟨l, hl⟩
    exact ⟨l, hl.symm⟩
  · rintro ⟨l, hl⟩
    exact ⟨l, hl.symm⟩

theorem isRelative_iff_of_dots {l : List Char} (h : path.toList = '.' :: '.' :: l) :
    IsRelative path ↔ ∀ c ∈ l.head?, c = '/' := by
  have hpath : path = String.ofList ('.' :: '.' :: l) := by rw [← h, String.ofList_toList]
  have hlong : path ≠ "." := by
    rintro rfl
    cases h
  cases l with
  | nil => simp [hpath, IsRelative]
  | cons c l =>
    have hlonger : path ≠ ".." := by
      rintro rfl
      cases h
    have hbelow : ¬ beginsWith "./" path = true := by
      simp [beginsWith, h]
    have habove : beginsWith "../" path = true ↔ '/' = c := by
      simp [beginsWith, h]
    rw [IsRelative, or_iff_right hlong, or_iff_right hlonger, or_iff_right hbelow, habove, eq_comm]
    simp

/-- What is made of the text of a way is relative, unless the text begins with two dots that are a
part of a longer step. -/
theorem isRelative_prefixed_iff (way : String) :
    IsRelative (if way = "" then "." else if beginsWith ".." way then way else "./" ++ way) ↔
      ∀ l, way.toList = '.' :: '.' :: l → ∀ c ∈ l.head?, c = '/' := by
  by_cases hempty : way = ""
  · subst hempty
    simp [IsRelative]
  · rw [if_neg hempty]
    by_cases hdots : beginsWith ".." way = true
    · obtain ⟨l, hl⟩ := beginsWith_dots_iff.1 hdots
      rw [if_pos hdots, isRelative_iff_of_dots hl, hl]
      simp
    · rw [if_neg hdots]
      constructor
      · intro _ l hl
        exact absurd (beginsWith_dots_iff.2 ⟨l, hl⟩) hdots
      · intro _
        exact .inr (.inr (.inl (beginsWith_iff.2 ⟨way.toList, by simp⟩)))

/-- The text of a way begins with its first step, and a slash follows if anything does. -/
theorem toList_joined_cons (s : String) (rest : List String) : ∃ tail,
    ("/".intercalate (s :: rest)).toList = s.toList ++ tail ∧ ∀ c ∈ tail.head?, c = '/' := by
  by_cases hrest : rest = []
  · subst hrest
    exact ⟨[], by simp, by simp⟩
  · refine ⟨'/' :: ("/".intercalate rest).toList, ?_, by simp⟩
    rw [String.intercalate_cons_of_ne_nil hrest]
    simp

theorem slashed_eq_slash_iff : slashed c = '/' ↔ c = '/' ∨ c = '\\' := by
  unfold slashed
  split
  · next h => simp [h]
  · next h => simp [h]

theorem dots_of_map_slashed_iff (l : List Char) :
    (∀ rest, l.map slashed = '.' :: '.' :: rest → ∀ c ∈ rest.head?, c = '/') ↔
      ∀ rest, l = '.' :: '.' :: rest → ∀ c ∈ rest.head?, c = '/' ∨ c = '\\' := by
  constructor
  · intro h rest hl c hc
    apply slashed_eq_slash_iff.1
    apply h (rest.map slashed) (by rw [hl]; rfl)
    rw [List.head?_map]
    exact Option.mem_map_of_mem slashed hc
  · intro h rest hl c hc
    obtain ⟨a, l, rfl, ha, hl⟩ := List.map_eq_cons_iff.1 hl
    obtain ⟨b, l, rfl, hb, rfl⟩ := List.map_eq_cons_iff.1 hl
    rw [List.head?_map] at hc
    obtain ⟨d, hd, rfl⟩ := Option.map_eq_some_iff.1 hc
    apply slashed_eq_slash_iff.2
    exact h l (by rw [slashed_eq_dot_iff.1 ha, slashed_eq_dot_iff.1 hb]) d hd

/-- Where a text begins with a name and with two dots, the name goes on after them. -/
theorem exists_of_dots {tail l : List Char} (hs : IsName s)
    (h : s.toList ++ tail = '.' :: '.' :: l) :
    ∃ c rest, s.toList = '.' :: '.' :: c :: rest ∧ l = c :: (rest ++ tail) := by
  cases hl : s.toList with
  | nil => exact absurd (String.toList_eq_nil_iff.1 hl) hs.ne_empty
  | cons a rest =>
    rw [hl] at h
    injection h with ha h
    subst ha
    cases rest with
    | nil => exact absurd (String.toList_inj.1 hl) hs.ne_dot
    | cons b rest =>
      injection h with hb h
      subst hb
      cases rest with
      | nil => exact absurd (String.toList_inj.1 hl) hs.ne_dots
      | cons c rest => exact ⟨c, rest, rfl, h.symm⟩

theorem isRelative_relativePrefix_iff (hdown : ∀ s ∈ down, IsName s)
    (h : between (ofSegments start) (ofSegments target) =
      some ("/".intercalate (List.replicate up.length ".." ++ down))) :
    IsRelative (relativePrefix start target) ↔
      (up = [] → ∀ s ∈ down.head?, beginsWith ".." s = true → beginsWith "..\\" s = true) := by
  have hprefixed := isRelative_prefixed_iff
    (replaceChar '\\' "/" ("/".intercalate (List.replicate up.length ".." ++ down)))
  simp only [relativePrefix, h, Option.getD_some, String.isEmpty_iff]
  rw [hprefixed, toList_replaceChar, dots_of_map_slashed_iff]
  cases up with
  | cons t up =>
    obtain ⟨tail, htail, hslash⟩ := toList_joined_cons ".." (List.replicate up.length ".." ++ down)
    rw [List.length_cons, List.replicate_succ, List.cons_append, htail]
    constructor
    · intro _ hup
      cases hup
    · intro _ rest hrest c hc
      obtain rfl : tail = rest := List.append_cancel_left hrest
      exact .inl (hslash c hc)
  | nil =>
    cases down with
    | nil => simp
    | cons s down =>
      have hs := hdown s List.mem_cons_self
      obtain ⟨tail, htail, -⟩ := toList_joined_cons s down
      rw [List.length_nil, List.replicate_zero, List.nil_append, htail]
      constructor
      · intro hway _ t ht hdots
        obtain rfl := Option.some.inj ht
        obtain ⟨l, hl⟩ := beginsWith_dots_iff.1 hdots
        obtain ⟨c, rest, hname, -⟩ := exists_of_dots hs (by rw [List.append_nil, hl])
        rcases hway (c :: rest ++ tail) (by rw [hname]; rfl) c rfl with rfl | rfl
        · exact absurd (by rw [hname]; simp) hs.no_slash
        · exact beginsWith_iff.2 ⟨rest, hname.symm⟩
      · intro hname l hl c hc
        obtain ⟨b, rest, hdots, rfl⟩ := exists_of_dots hs hl
        obtain rfl := Option.some.inj hc
        have hlonger := hname rfl s rfl (beginsWith_dots_iff.2 ⟨_, hdots⟩)
        simp [beginsWith, hdots] at hlonger
        exact .inr hlonger.symm

/-- Between two folders that pass the check of their segments the prefix goes up from the one to the
last folder above both, and down to the other. It is relative, unless it goes down only and the
first name on the way begins with two dots that no backslash follows. It leads to the other folder
exactly when no name on the way down holds a backslash. -/
theorem relativePrefix_relative_iff_and_follow_iff {other : String}
    (hs : Strategy.checkPath area start = .ok ()) (ht : Strategy.checkPath other target = .ok ()) :
    ∃ common up down, start = common ++ up ∧ target = common ++ down ∧
      (∀ s ∈ up.head?, s ∉ down.head?) ∧
      (IsRelative (relativePrefix start target) ↔
        (up = [] → ∀ s ∈ down.head?, beginsWith ".." s = true → beginsWith "..\\" s = true)) ∧
      (follow start (relativePrefix start target) = some target ↔
        ∀ s ∈ down, '\\' ∉ s.toList) := by
  have htarget := isName_of_checkPath ht
  obtain ⟨common, up, down, rfl, rfl, hapart, hway⟩ :=
    between_joined (isName_of_checkPath hs) htarget
  have hdown : ∀ s ∈ down, IsName s := fun s hs => htarget s (List.mem_append_right _ hs)
  exact ⟨common, up, down, rfl, rfl, hapart, isRelative_relativePrefix_iff hdown hway,
    follow_relativePrefix_iff hapart hdown hway⟩

theorem relativePrefix_between_dotted_folders :
    Strategy.checkPath "pages" ["src", "..views"] = .ok () ∧
    Strategy.checkPath "components" ["src", "..parts", "ui\\kit"] = .ok () ∧
    IsRelative (relativePrefix ["src", "..views"] ["src", "..parts", "ui\\kit"]) ∧
    follow ["src", "..views"] (relativePrefix ["src", "..views"] ["src", "..parts", "ui\\kit"]) ≠
      some ["src", "..parts", "ui\\kit"] ∧
    follow [] (relativePrefix [] ["src", "..views"]) = some ["src", "..views"] := by
  have hroot : Strategy.checkPath "static" [] = .ok () := rfl
  have hviews : Strategy.checkPath "pages" ["src", "..views"] = .ok () := by decide
  have hkit : Strategy.checkPath "components" ["src", "..parts", "ui\\kit"] = .ok () := by decide
  obtain ⟨common, up, down, hstart, htarget, -, hrelative, hfollow⟩ :=
    relativePrefix_relative_iff_and_follow_iff hviews hkit
  refine ⟨hviews, hkit, hrelative.2 fun hup => ?_, fun h => ?_, ?_⟩
  · rw [hup, List.append_nil] at hstart
    rw [← hstart, List.cons_append, List.cons_append, List.cons_eq_cons, List.cons_eq_cons]
      at htarget
    exact absurd htarget.2.1 (by decide)
  · have hmem : "ui\\kit" ∈ common ++ down := htarget ▸ by decide
    rcases List.mem_append.1 hmem with hmem | hmem
    · have hstays : "ui\\kit" ∈ ["src", "..views"] := hstart ▸ List.mem_append_left up hmem
      exact absurd hstays (by decide)
    · exact hfollow.1 h "ui\\kit" hmem (by decide)
  · obtain ⟨common, up, down, -, htarget, -, -, hfollow⟩ :=
      relativePrefix_relative_iff_and_follow_iff hroot hviews
    have hclean : ∀ s ∈ ["src", "..views"], '\\' ∉ s.toList := by decide
    exact hfollow.2 fun s hs => hclean s (htarget ▸ List.mem_append_right common hs)

/-- Going down only, a folder whose name begins with two dots gets no relative prefix, and the
prefix of a folder with a backslash in its name leads through two folders. -/
theorem relativePrefix_not_relative_and_astray :
    (Strategy.checkPath "pages" [] = .ok () ∧ Strategy.checkPath "components" ["..a"] = .ok () ∧
      ¬ IsRelative (relativePrefix [] ["..a"])) ∧
    Strategy.checkPath "components" ["a\\b"] = .ok () ∧
    follow [] (relativePrefix [] ["a\\b"]) = some ["a", "b"] := by
  decide

end Sitewright
