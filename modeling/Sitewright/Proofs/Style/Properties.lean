import Sitewright.Proofs.Text.Runs
import Sitewright.Style.Rule

/-!
# Names of properties

A rule has a line for each value of a style. A property keeps the name that it has in style sheets
if and only if no hyphen stands in front of it, since the hyphens that mark a prefixed or a custom
property are dropped; a camel-case name is dashed.
-/

namespace Sitewright.Style

/-- A property as style sheets name it: words joined by single hyphens, behind one hyphen if it is
prefixed and behind two if it is a custom property. -/
structure IsProperty (mark bare s : String) : Prop where
  marked : mark = "" ∨ mark = "-" ∨ mark = "--"
  dashed : IsDashed bare
  nonempty : bare ≠ ""
  eq : s = mark ++ bare

/-- What becomes of the name of a style value. -/
structure PrintedAs (name property : String) : Prop where
  unmarked : ∀ mark bare, IsProperty mark bare name → property = bare
  kept_iff : ∀ mark bare, IsProperty mark bare name → (property = name ↔ mark = "")
  dashed : IsCamelCase name → property.toList = name.toList.flatMap dashedChar

variable {mark bare s : String}

theorem IsProperty.dashCase_eq (h : IsProperty mark bare s) : dashCase s = bare := by
  have hmark : ∀ c ∈ mark.toList, c.isAlphanum = false := by
    rcases h.marked with rfl | rfl | rfl <;> simp [show '-'.isAlphanum = false from rfl]
  rw [h.eq, dashCase, String.toList_append, nameWords_append_of_not hmark, ← dashCase]
  exact dashCase_eq_self_iff.2 h.dashed

theorem printedAs_dashCase (name : String) : PrintedAs name (dashCase name) where
  unmarked _ _ h := h.dashCase_eq
  kept_iff mark bare h := by
    rw [h.dashCase_eq, h.eq, ← String.toList_inj, String.toList_append, List.self_eq_append_left,
      String.toList_eq_nil_iff]
  dashed h := h.toList_dashCase

/-- A rule has one line for each style value, in order, with the value and a property. The property
is the name that the value has in style sheets without the hyphens in front of it, so it is kept if
and only if there are none, and the dashed form of a camel-case name. -/
theorem property_kept_iff_unmarked (selector : String) (style : Table String) :
    ∃ lines : List String,
      (ruleOf selector style).text = selector ++ " \x7b\n" ++ String.join lines ++ "\x7d" ∧
      List.Forall₂ (fun e line => ∃ property,
        line = "  " ++ property ++ ": " ++ resolveTokens e.2 ++ ";\n" ∧ PrintedAs e.1 property)
        style.entries lines := by
  refine ⟨(ruleOf selector style).declarations.map fun d => "  " ++ d.1 ++ ": " ++ d.2 ++ ";\n",
    by rw [Rule.text, declarationLines]; rfl, ?_⟩
  rw [ruleOf, List.map_map, List.forall₂_map_right_iff, List.forall₂_same]
  exact fun e _ => ⟨dashCase e.1, rfl, printedAs_dashCase e.1⟩

/-- A prefixed and a custom property lose their hyphens, so that the value of the custom property
takes the place of a color. -/
theorem property_marks_lost :
    IsProperty "-" "webkit-box-shadow" "-webkit-box-shadow" ∧ IsProperty "--" "color" "--color" ∧
    (ruleOf ".card" (Table.ofList [("--color", "blue"), ("-webkit-box-shadow", "none"),
      ("backgroundColor", "white"), ("color", "red")])).text =
      ".card \x7b\n  color: blue;\n  webkit-box-shadow: none;\n  background-color: white;\n" ++
        "  color: red;\n\x7d" :=
  ⟨⟨by decide, by decide, by decide, rfl⟩, ⟨by decide, by decide, by decide, rfl⟩, by decide⟩

end Sitewright.Style
