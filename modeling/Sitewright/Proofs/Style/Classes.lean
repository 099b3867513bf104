import Sitewright.Style.Sheets

/-!
# Classes of styled elements

Extraction gives each element that has a style a class of its own, in the order of the tree, and
leaves every other element as it is.
-/

namespace Sitewright.Style

/-- Elements before and after their styles are extracted, with the styles: each styled element has
got the class of the next style. -/
inductive Classed : List Ui.Element → List Ui.Element → List ClassStyle → Prop
  | nil : Classed [] [] []
  | plain {e : Ui.Element} {before after : List Ui.Element} {styles : List ClassStyle}
      (hplain : e.style.isEmpty = true) (rest : Classed before after styles) :
      Classed (e :: before) (e :: after) styles
  | styled {e : Ui.Element} {s : ClassStyle} {before after : List Ui.Element}
      {styles : List ClassStyle} (hstyled : e.style.isEmpty = false) (hstyle : s.style = e.style)
      (rest : Classed before after styles) :
      Classed (e :: before) (withClass e s.className :: after) (s :: styles)

variable {before after before' after' : List Ui.Element} {styles styles' : List ClassStyle}
  {e : Ui.Element}

theorem Classed.append (h : Classed before after styles) (h' : Classed before' after' styles') :
    Classed (before ++ before') (after ++ after') (styles ++ styles') := by
  induction h with
  | nil => exact h'
  | plain hplain _ ih => exact .plain hplain ih
  | styled hstyled hstyle _ ih => exact .styled hstyled hstyle ih

/-- There are styles exactly if an element has had one. -/
theorem Classed.styles_ne_nil_iff (h : Classed before after styles) :
    styles ≠ [] ↔ ∃ e ∈ before, e.style.isEmpty = false := by
  induction h with
  | nil => simp
  | plain hplain _ ih =>
    rw [ih]
    simp [hplain]
  | styled hstyled _ _ _ =>
    exact iff_of_true (List.cons_ne_nil _ _) ⟨_, List.mem_cons_self, hstyled⟩

theorem classed_extractElement (used : List String) (e : Ui.Element) :
    Classed [e] [(extractElement used e).1] (extractElement used e).2 := by
  rw [extractElement]
  by_cases h : e.style.isEmpty = true
  · rw [if_pos h]
    exact .plain h .nil
  · rw [if_neg h]
    exact .styled (s := ⟨classNameFor e used, e.style⟩) (by simpa using h) rfl .nil

mutual
theorem classed_extract (used : List String) : ∀ node : Ui.Node,
    Classed node.elements (extract used node).1.elements (extract used node).2
  | .element e children => by
    have hbelow := classed_extractAll
      (used ++ (extractElement used e).2.map (·.className)) children
    exact (classed_extractElement used e).append hbelow
  | .text _ => .nil
  | .dynamic _ => .nil

theorem classed_extractAll (used : List String) : ∀ nodes : List Ui.Node,
    Classed (Ui.Node.elementsOfAll nodes) (Ui.Node.elementsOfAll (extractAll used nodes).1)
      (extractAll used nodes).2
  | [] => .nil
  | node :: rest => by
    have hrest := classed_extractAll (used ++ (extract used node).2.map (·.className)) rest
    exact (classed_extract used node).append hrest
end

end Sitewright.Style
