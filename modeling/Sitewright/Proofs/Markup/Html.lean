import Mathlib.Tactic.SplitIfs
import Sitewright.Proofs.Markup.Faithful

/-!
# Faithful HTML

The HTML of two regular elements is the same only if the elements are. Values and texts are spelled
in prefix codes, in which no value has a quote and no text an opening bracket, and which elements
are written without an end is decided by their tags.
-/

namespace Sitewright.Markup

theorem isPrefixCode_escapedInText : IsPrefixCode escapedInText where
  ne_nil c := by
    rw [escapedInText]
    split_ifs <;> simp
  inj {a b x y} h := by
    simp only [escapedInText] at h
    split_ifs at h <;> simp_all [eq_comm]

theorem isPrefixCode_escapedInAttribute : IsPrefixCode escapedInAttribute where
  ne_nil c := by
    rw [escapedInAttribute]
    split_ifs <;> simp
  inj {a b x y} h := by
    simp only [escapedInAttribute] at h
    split_ifs at h <;> simp_all [eq_comm]

theorem escapeText_injective : Function.Injective escapeText :=
  isPrefixCode_escapedInText.ofList_flatMap_injective

theorem escapeAttribute_injective : Function.Injective escapeAttribute :=
  isPrefixCode_escapedInAttribute.ofList_flatMap_injective

theorem lt_notMem_escapedInText (c : Char) : '<' ∉ escapedInText c := by
  rw [escapedInText]
  split_ifs with hand hlt hgt
  · decide
  · decide
  · decide
  · simpa using Ne.symm hlt

theorem quote_notMem_escapedInAttribute (c : Char) : '"' ∉ escapedInAttribute c := by
  rw [escapedInAttribute]
  split_ifs with hand hquote
  · decide
  · decide
  · simpa using Ne.symm hquote

def htmlSpelling : html.Spelling voidTags rawTextTags where
  value := escapeAttribute
  text := escapeText
  attrText_literal _ _ := rfl
  attrText_flag _ := rfl
  quote_notMem_value v := by simp [escapeAttribute, quote_notMem_escapedInAttribute]
  textIn_eq htag _ := if_neg (by simpa using htag)
  text_injective := escapeText_injective
  text_empty := rfl
  lt_notMem_text t := by simp [escapeText, lt_notMem_escapedInText]
  ending_nil {tag ending} h := by
    obtain ⟨hvoid, h⟩ := Option.ite_none_right_eq_some.1 h
    exact .inl ⟨by simpa using hvoid, (Option.some.inj h).symm⟩
  ending_none {tag children} htag _ := if_neg (by simpa using htag)

/-- Two elements have the same HTML only if they are the same. -/
theorem toHtml_eq_iff {e e' : Element} (h : IsRegular voidTags rawTextTags e.toChild)
    (h' : IsRegular voidTags rawTextTags e'.toChild) : e.toHtml = e'.toHtml ↔ e = e' := by
  constructor
  · intro heq
    have hwrite := htmlSpelling.write_eq_of_trimEnd_eq h h' heq
    have hsame := htmlSpelling.mapLiterals_eq_of_write_eq h h' hwrite
    obtain ⟨g, hg⟩ := escapeAttribute_injective.hasLeftInverse
    exact Element.eq_of_mapLiterals_eq (fun v _ => hg v) (fun v _ => hg v) hsame
  · rintro rfl
    rfl

/-- A section whose class and text look like an attribute and an element. -/
def quotingSection : Element where
  tag := "section"
  attrs := [("class", .literal "note\" id=\"top")]
  children := [.element "hr" [] [], .element "p" [("hidden", .flag)] [.text "<br>\n  "]]

def nestedSection : Element where
  tag := "section"
  attrs := [("class", .literal "note"), ("id", .literal "top")]
  children := [.element "hr" [] [], .element "p" [("hidden", .flag)] [.element "br" [] []]]

theorem isRegular_quotingSection : IsRegular voidTags rawTextTags quotingSection.toChild := by
  have hclass : IsName "class" := isName_of_chars (by decide) rfl
  have hhidden : IsName "hidden" := isName_of_chars (by decide) rfl
  have hhr : IsRegular voidTags rawTextTags (.element "hr" [] []) :=
    .empty (isName_of_chars (by decide) rfl) (List.forall_mem_nil _)
  have hp : IsRegular voidTags rawTextTags
      (.element "p" [("hidden", .flag)] [.text "<br>\n  "]) :=
    .text (isName_of_chars (by decide) rfl) (List.forall_mem_singleton.2 (.flag hhidden))
      (by decide) (by decide) (by decide)
  exact .elements (isName_of_chars (by decide) rfl)
    (List.forall_mem_singleton.2 (.literal hclass _)) (by decide) (List.cons_ne_nil _ _)
    (List.forall_mem_cons.2 ⟨hhr, List.forall_mem_singleton.2 hp⟩)

theorem isRegular_nestedSection : IsRegular voidTags rawTextTags nestedSection.toChild := by
  have hclass : IsName "class" := isName_of_chars (by decide) rfl
  have hid : IsName "id" := isName_of_chars (by decide) rfl
  have hhidden : IsName "hidden" := isName_of_chars (by decide) rfl
  have hhr : IsRegular voidTags rawTextTags (.element "hr" [] []) :=
    .empty (isName_of_chars (by decide) rfl) (List.forall_mem_nil _)
  have hbr : IsRegular voidTags rawTextTags (.element "br" [] []) :=
    .empty (isName_of_chars (by decide) rfl) (List.forall_mem_nil _)
  have hp : IsRegular voidTags rawTextTags
      (.element "p" [("hidden", .flag)] [.element "br" [] []]) :=
    .elements (isName_of_chars (by decide) rfl)
      (List.forall_mem_singleton.2 (.flag hhidden)) (by decide) (List.cons_ne_nil _ _)
      (List.forall_mem_singleton.2 hbr)
  exact .elements (isName_of_chars (by decide) rfl)
    (List.forall_mem_cons.2 ⟨.literal hclass _, List.forall_mem_singleton.2 (.literal hid _)⟩)
    (by decide) (List.cons_ne_nil _ _)
    (List.forall_mem_cons.2 ⟨hhr, List.forall_mem_singleton.2 hp⟩)

theorem toHtml_eq_iff_sections :
    IsRegular voidTags rawTextTags quotingSection.toChild ∧
    IsRegular voidTags rawTextTags nestedSection.toChild ∧
    quotingSection.toHtml ≠ nestedSection.toHtml := by
  refine ⟨isRegular_quotingSection, isRegular_nestedSection, fun heq => ?_⟩
  have hsame := (toHtml_eq_iff isRegular_quotingSection isRegular_nestedSection).1 heq
  exact absurd (congrArg Element.attrs hsame) (by decide)

end Sitewright.Markup
