import Mathlib.Data.List.Basic
import Mathlib.Data.List.TakeWhile
import Sitewright.Path
import Sitewright.Proofs.Text.Segments

/-!
# Joined module paths

A path loses a beginning when it is joined to a prefix: every leading `./`, and then every leading
slash. What is left has all other characters of the path, and it ends as the path does.
-/

namespace Sitewright

variable {start ending front rest l : List Char} {path : String} {c : Char}

/-- A property of a list that also holds without a repeated beginning holds of what is left. -/
theorem dropRepeated_induction {p : List Char → Prop}
    (hdrop : ∀ later, p (start ++ later) → p later) (h : p l) : p (dropRepeated start l) := by
  induction l using dropRepeated.induct start with
  | case1 => rwa [dropRepeated]
  | case2 c rest hstart ih =>
    obtain ⟨later, hlater⟩ := List.isPrefixOf_iff_prefix.1 hstart.1
    have hrest : rest.drop (start.length - 1) = later := by
      have hlater' : (c :: rest).drop start.length = later := by rw [← hlater, List.drop_left]
      rwa [← Nat.succ_pred_eq_of_pos hstart.2, List.drop_succ_cons] at hlater'
    rw [dropRepeated, if_pos hstart]
    exact ih (hrest ▸ hdrop later (hlater ▸ h))
  | case3 c rest hstart => rwa [dropRepeated, if_neg hstart]

def joinedRest (path : String) : List Char :=
  (dropRepeated ['.', '/'] path.toList).dropWhile (· == '/')

theorem joinModulePath_of_ne_nil (modulePrefix : String) (h : joinedRest path ≠ []) :
    joinModulePath modulePrefix path =
      dropEndSlashes modulePrefix ++ "/" ++ String.ofList (joinedRest path) := by
  have hne : (String.ofList (joinedRest path)).isEmpty = false := by
    rwa [String.isEmpty_eq_false_iff, ne_eq, String.ofList_eq_empty_iff]
  rw [joinModulePath, ← joinedRest, if_neg (by rw [hne]; exact Bool.false_ne_true)]

theorem mem_joinedRest (h : c ∈ path.toList) (hdot : c ≠ '.') (hslash : c ≠ '/') :
    c ∈ joinedRest path := by
  have hkept : c ∈ dropRepeated ['.', '/'] path.toList := by
    refine dropRepeated_induction (fun later hc => ?_) h
    exact (List.mem_append.1 hc).resolve_left (by simp [hdot, hslash])
  rw [← List.takeWhile_append_dropWhile (p := (· == '/'))
    (l := dropRepeated ['.', '/'] path.toList)] at hkept
  refine (List.mem_append.1 hkept).resolve_left fun hc => hslash ?_
  simpa using List.mem_takeWhile_imp hc

theorem slash_mem_joinModulePath (modulePrefix : String) (h : c ∈ path.toList) (hdot : c ≠ '.')
    (hslash : c ≠ '/') : '/' ∈ (joinModulePath modulePrefix path).toList := by
  rw [joinModulePath_of_ne_nil _ (List.ne_nil_of_mem (mem_joinedRest h hdot hslash))]
  simp

/-- What ends a text ends what is left of it without a front whose last character is not in it. -/
theorem suffix_of_suffix_append (h : ending <:+ front ++ rest)
    (hlast : ∀ c ∈ front.getLast?, c ∉ ending) : ending <:+ rest := by
  rcases List.suffix_or_suffix_of_suffix h (List.suffix_append front rest) with h' | ⟨between, rfl⟩
  · exact h'
  · rcases List.eq_nil_or_concat' between with rfl | ⟨before, c, rfl⟩
    · exact List.suffix_refl _
    · -- the last character of the front would be one of the ending
      obtain ⟨others, hothers⟩ := h
      have hfront : front = others ++ before ++ [c] := by
        rw [← List.append_assoc] at hothers
        simpa using (List.append_cancel_right hothers).symm
      exact absurd (show c ∈ (before ++ [c]) ++ rest by simp) (hlast c (by rw [hfront]; simp))

theorem suffix_joinedRest (hslash : '/' ∉ ending) (h : ending <:+ path.toList) :
    ending <:+ joinedRest path := by
  have hkept : ending <:+ dropRepeated ['.', '/'] path.toList := by
    refine dropRepeated_induction (fun later hlater => suffix_of_suffix_append hlater ?_) h
    simpa using hslash
  rw [← List.takeWhile_append_dropWhile (p := (· == '/'))
    (l := dropRepeated ['.', '/'] path.toList)] at hkept
  refine suffix_of_suffix_append hkept fun c hc => ?_
  have heq : c = '/' := by simpa using List.mem_takeWhile_imp (List.mem_of_getLast? hc)
  rwa [heq]

theorem endsWithText_joinModulePath {ending : String} (modulePrefix : String)
    (hslash : '/' ∉ ending.toList) (hne : ending.toList ≠ [])
    (h : endsWithText ending path = true) :
    endsWithText ending (joinModulePath modulePrefix path) = true := by
  have hrest := suffix_joinedRest hslash (endsWithText_iff.1 h)
  have hkept : joinedRest path ≠ [] := fun hnil => hne (List.suffix_nil.1 (hnil ▸ hrest))
  rw [joinModulePath_of_ne_nil _ hkept, endsWithText_iff, String.toList_append,
    String.toList_ofList]
  exact hrest.trans (List.suffix_append _ _)

end Sitewright
