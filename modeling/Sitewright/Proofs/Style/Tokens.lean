import Sitewright.Proofs.Style.Classes
import Sitewright.Proofs.Text.Words
import Sitewright.Style.Sheets

/-!
# References to design tokens

A token is declared under the dashed form of its name, whereas a reference keeps the name as it is
written. A reference to a declared token therefore leads to a declaration if and only if the name is
dashed already.
-/

namespace Sitewright.Style

/-- A name that a reference can have: a letter and then letters, digits, underscores and
hyphens. -/
structure IsTokenName (n : String) : Prop where
  begins : n.toList.head?.any Char.isAlpha = true
  chars : n.toList.all isTokenChar = true

section References

variable {name rest before after : List Char}

theorem isTokenChar_dollar : isTokenChar '$' = false := by decide

theorem resolveTokenChars_closed {c : Char} (hc : isTokenChar c = false) :
    resolveTokenChars true (c :: rest) = ')' :: resolveTokenChars false (c :: rest) := by
  rw [resolveTokenChars, hc, resolveTokenChars]
  rfl

theorem resolveTokenChars_name (hname : name.all isTokenChar = true)
    (hrest : rest.head?.any isTokenChar = false) :
    resolveTokenChars true (name ++ rest) = name ++ ')' :: resolveTokenChars false rest := by
  induction name with
  | nil =>
    cases rest with
    | nil => rfl
    | cons c rest => exact resolveTokenChars_closed (by simpa using hrest)
  | cons c name ih =>
    obtain ⟨hc, hname⟩ := Bool.and_eq_true_iff.1 (List.all_cons.symm.trans hname)
    rw [List.cons_append, resolveTokenChars, hc, Bool.and_self, if_pos rfl, ih hname,
      List.cons_append]

/-- A reference is resolved apart from what stands before and after it. -/
theorem resolveTokenChars_reference (hbegins : name.head?.any Char.isAlpha = true)
    (hname : name.all isTokenChar = true) (hafter : after.head?.any isTokenChar = false)
    (before : List Char) (inToken : Bool) :
    resolveTokenChars inToken (before ++ '$' :: (name ++ after)) =
      resolveTokenChars inToken before ++
        ("var(--".toList ++ name ++ [')'] ++ resolveTokenChars false after) := by
  -- a name that `before` ends in is closed by the dollar sign, whatever the state
  induction before generalizing inToken with
  | nil =>
    have hhead : ((name ++ after).head?.map Char.isAlpha).getD false = true := by
      cases name with
      | nil => simp at hbegins
      | cons c name => simpa using hbegins
    have hstep : resolveTokenChars inToken ('$' :: (name ++ after)) =
        resolveTokenChars inToken [] ++
          ("var(--".toList ++ resolveTokenChars true (name ++ after)) := by
      simp [resolveTokenChars, isTokenChar_dollar, hhead, -List.head?_append]
    rw [List.nil_append, hstep, resolveTokenChars_name hname hafter]
    simp
  | cons c before ih =>
    have hnext : ((before ++ '$' :: (name ++ after)).head?.map Char.isAlpha).getD false =
        (before.head?.map Char.isAlpha).getD false := by
      cases before <;> rfl
    rw [List.cons_append, resolveTokenChars, resolveTokenChars, hnext, ih, ih]
    split_ifs <;> simp

@[simp] theorem toList_resolveTokens (value : String) :
    (resolveTokens value).toList = resolveTokenChars false value.toList :=
  String.toList_ofList

theorem resolveTokens_reference {n s t : String} (hname : IsTokenName n)
    (hafter : t.toList.head?.any isTokenChar = false) :
    resolveTokens (s ++ "$" ++ n ++ t) =
      resolveTokens s ++ "var(--" ++ n ++ ")" ++ resolveTokens t := by
  have hchars := resolveTokenChars_reference hname.begins hname.chars hafter s.toList false
  have hdollar : "$".toList = ['$'] := rfl
  have hclose : ")".toList = [')'] := rfl
  rw [← String.toList_inj]
  simp only [toList_resolveTokens, String.toList_append, hdollar, hclose, List.append_assoc,
    List.singleton_append] at hchars ⊢
  exact hchars

theorem resolveTokens_dollar {n : String} (hname : IsTokenName n) :
    resolveTokens ("$" ++ n) = "var(--" ++ n ++ ")" := by
  have hempty : resolveTokens "" = "" := rfl
  simpa [hempty] using resolveTokens_reference (s := "") (t := "") hname rfl

end References

section Sheets

def styleValues (style : Table String) : List (String × String) :=
  style.entries.map fun e => (dashCase e.1, e.2)

def componentValues (node : Ui.Node) : List (String × String) :=
  node.elements.flatMap fun e => styleValues e.style

def projectValues (d : Draft) : List (String × String) :=
  ((declaredTokens d).entries.map fun e => ("--" ++ dashCase e.1, e.2)) ++
    (declaredSets d).entries.flatMap fun e => styleValues e.2

def componentRules (node : Ui.Node) : List Rule := (extractStyles node).2.map ClassStyle.rule

def declarations (rules : List Rule) : List (String × String) := rules.flatMap Rule.declarations

def properties (rules : List Rule) : List String := (declarations rules).map Prod.fst

def printed (v : String × String) : String × String := (v.1, resolveTokens v.2)

variable {before after : List Ui.Element} {styles : List ClassStyle}

theorem declarations_ruleOf (selector : String) (style : Table String) :
    (ruleOf selector style).declarations = (styleValues style).map printed := by
  rw [styleValues, List.map_map]
  rfl

theorem Classed.flatMap_styleValues (h : Classed before after styles) :
    styles.flatMap (fun s => styleValues s.style) =
      before.flatMap fun e => styleValues e.style := by
  induction h with
  | nil => rfl
  | plain hplain _ ih =>
    rw [List.flatMap_cons, ← ih, styleValues, List.isEmpty_iff.1 hplain]
    rfl
  | styled _ hstyle _ ih => rw [List.flatMap_cons, List.flatMap_cons, ih, hstyle]

theorem declarations_componentRules (node : Ui.Node) :
    declarations (componentRules node) = (componentValues node).map printed := by
  have hclassed := (classed_extract [] node).flatMap_styleValues
  rw [componentValues, ← hclassed, List.map_flatMap, declarations, componentRules, List.flatMap_map]
  exact List.flatMap_congr fun s _ => declarations_ruleOf _ s.style

theorem declarations_projectRules (d : Draft) :
    declarations (projectRules d) = (projectValues d).map printed := by
  have htokens : declarations (if (declaredTokens d).isEmpty then []
      else [tokensRule (declaredTokens d)]) =
      ((declaredTokens d).entries.map fun e => ("--" ++ dashCase e.1, e.2)).map printed := by
    rw [List.map_map]
    by_cases hempty : (declaredTokens d).isEmpty = true
    · rw [if_pos hempty, List.isEmpty_iff.1 hempty]
      rfl
    · rw [if_neg hempty]
      exact List.append_nil _
  have hsets : declarations (setRules (declaredSets d)) =
      ((declaredSets d).entries.flatMap fun e => styleValues e.2).map printed := by
    rw [declarations, setRules, List.flatMap_map, List.map_flatMap]
    exact List.flatMap_congr fun e _ => declarations_ruleOf _ e.2
  rw [projectRules, projectValues, List.map_append, ← htokens, ← hsets]
  exact List.flatMap_append

theorem properties_map_printed (values : List (String × String)) :
    (values.map printed).map Prod.fst = values.map Prod.fst := by
  rw [List.map_map]
  rfl

theorem custom_notMem_styleValues (q : String) (style : Table String) :
    "--" ++ q ∉ (styleValues style).map Prod.fst := by
  intro hmem
  obtain ⟨e, -, he⟩ := List.mem_map.1 (List.map_map .. ▸ hmem)
  -- a dashed name does not begin with a hyphen, as a custom property does
  have hhead := (isDashed_dashCase e.1).head?_ne_hyphen
  rw [show dashCase e.1 = "--" ++ q from he, String.toList_append] at hhead
  exact hhead rfl

theorem custom_notMem_componentRules (q : String) (node : Ui.Node) :
    "--" ++ q ∉ properties (componentRules node) := by
  rw [properties, declarations_componentRules, properties_map_printed, componentValues,
    List.map_flatMap, List.mem_flatMap]
  rintro ⟨e, -, he⟩
  exact custom_notMem_styleValues q e.style he

theorem custom_mem_projectRules_iff (q : String) (d : Draft) :
    "--" ++ q ∈ properties (projectRules d) ↔ ∃ m ∈ (declaredTokens d).keys, dashCase m = q := by
  have hsets : "--" ++ q ∉
      ((declaredSets d).entries.flatMap fun e => styleValues e.2).map Prod.fst := by
    rw [List.map_flatMap, List.mem_flatMap]
    rintro ⟨e, -, he⟩
    exact custom_notMem_styleValues q e.2 he
  rw [properties, declarations_projectRules, properties_map_printed, projectValues,
    List.map_append, List.mem_append, or_iff_left hsets, Table.keys, List.map_map]
  simp [String.append_right_inj]

end Sheets

variable {n : String}

/-- Every value that refers to a declared token is printed with the token's name as it is written.
This is the property declared for the token if and only if the name is dashed; otherwise no rule
declares it. -/
theorem token_reference_declared_iff (d : Draft) (node : Ui.Node) (hname : IsTokenName n)
    (hdeclared : n ∈ (declaredTokens d).keys) :
    (∀ (i : Nat) (property : String), (componentValues node)[i]? = some (property, "$" ++ n) →
      (declarations (componentRules node))[i]? = some (property, "var(--" ++ n ++ ")")) ∧
    (∀ (i : Nat) (property : String), (projectValues d)[i]? = some (property, "$" ++ n) →
      (declarations (projectRules d))[i]? = some (property, "var(--" ++ n ++ ")")) ∧
    "--" ++ dashCase n ∈ properties (projectRules d) ∧
    ("var(--" ++ n ++ ")" = "var(--" ++ dashCase n ++ ")" ↔ IsDashed n) ∧
    ("--" ++ n ∈ properties (projectRules d ++ componentRules node) ↔ IsDashed n) := by
  have hprinted : ∀ property, printed (property, "$" ++ n) = (property, "var(--" ++ n ++ ")") :=
    fun property => congrArg (property, ·) (resolveTokens_dollar hname)
  refine ⟨fun i property h => ?_, fun i property h => ?_, ?_, ?_, ?_⟩
  · rw [declarations_componentRules, List.getElem?_map, h, Option.map_some, hprinted]
  · rw [declarations_projectRules, List.getElem?_map, h, Option.map_some, hprinted]
  · exact (custom_mem_projectRules_iff _ d).2 ⟨n, hdeclared, rfl⟩
  · rw [← dashCase_eq_self_iff, String.append_left_inj, String.append_right_inj, eq_comm]
  · have happend : properties (projectRules d ++ componentRules node) =
        properties (projectRules d) ++ properties (componentRules node) := by
      simp [properties, declarations]
    rw [happend, List.mem_append, or_iff_left (custom_notMem_componentRules n node),
      custom_mem_projectRules_iff]
    refine ⟨?_, fun h => ⟨n, hdeclared, dashCase_eq_self_iff.2 h⟩⟩
    rintro ⟨m, -, rfl⟩
    exact isDashed_dashCase m

def palette : Draft where
  component := {
    name := "App"
    node := .element { kind := "button", style := Table.ofList [("color", "$primaryColor")] } []
    designLanguage :=
      some ⟨Table.ofList [("accent", "#6b46c1"), ("primaryColor", "#822cec")]⟩
    styleSets := Table.ofList [("PrimaryButton",
      Table.ofList [("backgroundColor", "$accent"), ("color", "$primaryColor")])] }
  options := {}

theorem token_reference_declared_accent :
    (declarations (projectRules palette))[2]? = some ("background-color", "var(--accent)") ∧
    "--accent" ∈ properties (projectRules palette ++ componentRules palette.component.node) := by
  obtain ⟨-, hproject, -, -, hdeclared⟩ := token_reference_declared_iff (n := "accent") palette
    palette.component.node ⟨by decide, by decide⟩ (by decide +kernel)
  exact ⟨hproject 2 "background-color" (by decide +kernel), hdeclared.2 (by decide +kernel)⟩

/-- Both sheets refer to `--primaryColor`, and none declares it. -/
theorem primaryColor_reference_dangles :
    IsTokenName "primaryColor" ∧ "primaryColor" ∈ (declaredTokens palette).keys ∧
    sheetText (componentRules palette.component.node) =
      ".button \x7b\n  color: var(--primaryColor);\n\x7d" ∧
    sheetText (projectRules palette) =
      ":root \x7b\n  --accent: #6b46c1;\n  --primary-color: #822cec;\n\x7d\n\n" ++
      ".primary-button \x7b\n  background-color: var(--accent);\n" ++
      "  color: var(--primaryColor);\n\x7d" ∧
    "--primaryColor" ∉ properties (projectRules palette ++ componentRules palette.component.node) :=
  ⟨⟨by decide, by decide⟩, by decide +kernel, by decide +kernel, by decide +kernel,
    by decide +kernel⟩

end Sitewright.Style
