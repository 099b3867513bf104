import Sitewright.Proofs.Json.Printing

/-!
# How deep a read value is nested

The reader gives up on a container that is nested too deep, so the containers of a value that can be
read in all its parts are nested no deeper than its limit.
-/

namespace Sitewright.Json

/-- A value that either cannot be read or is not nested too deep within some containers. -/
def Fits (depth : Nat) (v : Json) : Prop := v.isReadable = true → v.depth ≤ depthLimit - depth

variable {depth : Nat} {v r : Json} {stack : List Frame} {state after : Expecting} {token : Token}

theorem fits_unreadable : Fits depth .unreadable := fun h => absurd h (by decide)

theorem fits_of_depth_eq_zero (h : v.depth = 0) : Fits depth v := fun _ => by omega

theorem fits_array {items : List Json} (hdepth : depth < depthLimit)
    (hitems : ∀ item ∈ items, Fits (depth + 1) item) : Fits depth (.array items) := by
  intro h
  have hitems' : itemsDepth items ≤ depthLimit - (depth + 1) :=
    itemsDepth_le_iff.2 fun item hitem => hitems item hitem (areReadable_iff.1 h item hitem)
  rw [Json.depth]
  omega

theorem fits_object {fields : List (String × Json)} (hdepth : depth < depthLimit)
    (hfields : ∀ e ∈ fields, Fits (depth + 1) e.2) : Fits depth (.object fields) := by
  intro h
  have hfields' : fieldsDepth fields ≤ depthLimit - (depth + 1) :=
    fieldsDepth_le_iff.2 fun e he => hfields e he (fieldsReadable_iff.1 h e he)
  rw [Json.depth]
  omega

theorem fits_atDepth (h : depth < depthLimit → Fits depth v) : Fits depth (atDepth depth v) := by
  rw [atDepth]
  split
  · exact h ‹_›
  · exact fits_unreadable

theorem exists_of_mem_mapM {α β : Type} {f : α → Option β} {as : List α} {bs : List β} {b : β}
    (h : as.mapM f = some bs) (hb : b ∈ bs) : ∃ a ∈ as, f a = some b := by
  induction as generalizing bs with
  | nil =>
    cases h
    cases hb
  | cons a as ih =>
    rw [List.mapM_cons] at h
    obtain ⟨first, hfirst, h⟩ := Option.bind_eq_some_iff.1 h
    obtain ⟨others, hothers, h⟩ := Option.bind_eq_some_iff.1 h
    cases h
    obtain rfl | hb := List.mem_cons.1 hb
    · exact ⟨a, List.mem_cons_self, hfirst⟩
    · obtain ⟨a', ha', heq⟩ := ih hothers hb
      exact ⟨a', List.mem_cons_of_mem _ ha', heq⟩

theorem fits_closeObject {fields : List (Option String × Json)} (hdepth : depth < depthLimit)
    (hfields : ∀ e ∈ fields, Fits (depth + 1) e.2) : Fits depth (closeObject fields) := by
  rw [closeObject]
  split
  · next named hnamed =>
    refine fits_object hdepth fun e he => ?_
    obtain ⟨read, hread, heq⟩ := exists_of_mem_mapM hnamed he
    obtain ⟨key, -, rfl⟩ := Option.map_eq_some_iff.1 heq
    exact hfields read (List.mem_reverse.1 hread)
  · exact fits_unreadable

def Frame.values : Frame → List Json
  | .array before => before
  | .object before _ => before.map (·.2)

/-- Open containers whose values all fit. -/
def StackFits : List Frame → Prop
  | [] => True
  | frame :: stack => (∀ v ∈ frame.values, Fits (stack.length + 1) v) ∧ StackFits stack

def Expecting.Fits : Expecting → Prop
  | .value _ stack => StackFits stack
  | .key _ before stack => StackFits (.object before none :: stack)
  | .colon before name stack => StackFits (.object before name :: stack)
  | .next v stack => Json.Fits stack.length v ∧ StackFits stack

theorem fits_scalar_getD {α : Type} {f : α → Json} (hf : ∀ a, (f a).depth = 0) (a? : Option α) :
    Json.Fits depth ((a?.map f).getD .unreadable) := by
  cases a? with
  | none => exact fits_unreadable
  | some a => exact fits_of_depth_eq_zero (hf a)

theorem Expecting.Fits.step (h : state.Fits) (hstep : step state token = some after) :
    after.Fits := by
  unfold Json.step at hstep
  split at hstep
  all_goals cases hstep
  case h_1 | h_2 => exact ⟨fits_of_depth_eq_zero rfl, h⟩
  case h_3 n => exact ⟨fits_scalar_getD (fun _ => rfl) n, h⟩
  case h_4 s => exact ⟨fits_scalar_getD (fun _ => rfl) s, h⟩
  case h_5 | h_6 => exact ⟨by simp [Frame.values], h⟩
  case h_7 => exact ⟨fits_atDepth fun hdepth => fits_array hdepth (by simp), h.2⟩
  case h_9 | h_12 => exact h
  case h_10 => exact ⟨fits_atDepth fun hdepth => fits_object hdepth (by simp), h.2⟩
  case h_14 | h_16 =>
    obtain ⟨hv, hbefore, hstack⟩ := h
    exact ⟨List.forall_mem_cons.2 ⟨hv, hbefore⟩, hstack⟩
  case h_15 v before stack =>
    obtain ⟨hv, hbefore, hstack⟩ := h
    have hall : ∀ item ∈ (v :: before).reverse, Json.Fits (stack.length + 1) item :=
      fun item hitem => List.forall_mem_cons.2 ⟨hv, hbefore⟩ item (List.mem_reverse.1 hitem)
    exact ⟨fits_atDepth fun hdepth => fits_array hdepth hall, hstack⟩
  case h_17 v before name stack =>
    obtain ⟨hv, hbefore, hstack⟩ := h
    have hall : ∀ e ∈ (name, v) :: before, Json.Fits (stack.length + 1) e.2 :=
      List.forall_mem_cons.2 ⟨hv, fun e he => hbefore e.2 (List.mem_map_of_mem he)⟩
    exact ⟨fits_atDepth fun hdepth => fits_closeObject hdepth hall, hstack⟩

theorem Expecting.Fits.run {tokens : List Token} (h : state.Fits)
    (hrun : run state tokens = some r) : Json.Fits 0 r := by
  induction tokens generalizing state with
  | nil =>
    cases state with
    | next v stack =>
      cases stack with
      | nil => cases hrun; exact h.1
      | cons frame stack => cases hrun
    | _ => cases hrun
  | cons token tokens ih =>
    rw [run_token] at hrun
    obtain ⟨after, hstep, hrun⟩ := Option.bind_eq_some_iff.1 hrun
    exact ih (h.step hstep) hrun

/-- A value that was read is nested no deeper than the reader goes, if all of it can be read. -/
theorem fits_of_read? {text : String} (h : read? text = some v) : Fits 0 v := by
  obtain ⟨tokens, -, hrun⟩ := Option.bind_eq_some_iff.1 h
  have hstart : (Expecting.value false []).Fits := trivial
  exact hstart.run hrun

/-! ## In name order -/

mutual
theorem depth_canonical_le : ∀ j : Json, j.canonical.depth ≤ j.depth
  | .null | .bool _ | .number _ | .string _ | .unreadable => Nat.le_refl _
  | .array items => Nat.succ_le_succ (itemsDepth_canonicalItems_le items)
  | .object fields => by
    refine Nat.succ_le_succ (fieldsDepth_le_iff.2 fun e he => ?_)
    exact (fieldsDepth_le_iff.1 (fieldsDepth_canonicalFields_le fields)) e
      (Table.mem_of_mem_ofList he)

theorem itemsDepth_canonicalItems_le : ∀ items : List Json,
    itemsDepth (canonicalItems items) ≤ itemsDepth items
  | [] => Nat.le_refl _
  | item :: rest =>
    Nat.max_le.2 ⟨Nat.le_trans (depth_canonical_le item) (Nat.le_max_left _ _),
      Nat.le_trans (itemsDepth_canonicalItems_le rest) (Nat.le_max_right _ _)⟩

theorem fieldsDepth_canonicalFields_le : ∀ fields : List (String × Json),
    fieldsDepth (canonicalFields fields) ≤ fieldsDepth fields
  | [] => Nat.le_refl _
  | (_, value) :: rest =>
    Nat.max_le.2 ⟨Nat.le_trans (depth_canonical_le value) (Nat.le_max_left _ _),
      Nat.le_trans (fieldsDepth_canonicalFields_le rest) (Nat.le_max_right _ _)⟩
end

mutual
theorem numbers_canonical_subset : ∀ j : Json, j.canonical.numbers ⊆ j.numbers
  | .null | .bool _ | .number _ | .string _ | .unreadable => List.Subset.refl _
  | .array items => itemsNumbers_canonicalItems_subset items
  | .object fields => by
    intro n hn
    obtain ⟨e, he, hn⟩ := mem_fieldsNumbers_iff.1 hn
    exact fieldsNumbers_canonicalFields_subset fields
      (mem_fieldsNumbers_iff.2 ⟨e, Table.mem_of_mem_ofList he, hn⟩)

theorem itemsNumbers_canonicalItems_subset : ∀ items : List Json,
    itemsNumbers (canonicalItems items) ⊆ itemsNumbers items
  | [] => List.Subset.refl _
  | item :: rest =>
    List.append_subset.2
      ⟨List.subset_append_of_subset_left _ (numbers_canonical_subset item),
        List.subset_append_of_subset_right _ (itemsNumbers_canonicalItems_subset rest)⟩

theorem fieldsNumbers_canonicalFields_subset : ∀ fields : List (String × Json),
    fieldsNumbers (canonicalFields fields) ⊆ fieldsNumbers fields
  | [] => List.Subset.refl _
  | (_, value) :: rest =>
    List.append_subset.2
      ⟨List.subset_append_of_subset_left _ (numbers_canonical_subset value),
        List.subset_append_of_subset_right _ (fieldsNumbers_canonicalFields_subset rest)⟩
end

theorem Printable.canonical (h : v.Printable depth) : v.canonical.Printable depth where
  readable := isReadable_canonical v h.readable
  fits := Nat.le_trans (Nat.add_le_add_left (depth_canonical_le v) depth) h.fits
  survives n hn := h.survives n (numbers_canonical_subset v hn)

/-! ## Documents -/

/-- A value of a document that can be read back within some containers. -/
structure Writable (depth : Nat) (v : Json) : Prop where
  ordered : v.Ordered
  printable : v.Printable depth

theorem Writable.of_object {fields : List (String × Json)} (h : Writable depth (.object fields)) :
    depth < depthLimit ∧ ∀ e ∈ fields, Writable (depth + 1) e.2 := by
  obtain ⟨hdepth, hfields⟩ := printable_object.1 h.printable
  exact ⟨hdepth, fun e he => ⟨fieldsOrdered_iff.1 h.ordered.2 e he, hfields e he⟩⟩

theorem writable_object {t : Table Json} (hdepth : depth < depthLimit)
    (h : ∀ e ∈ t.entries, Writable (depth + 1) e.2) : Writable depth (.object t.entries) where
  ordered := ⟨t.sorted, fieldsOrdered_iff.2 fun e he => (h e he).ordered⟩
  printable := printable_object.2 ⟨hdepth, fun e he => (h e he).printable⟩

theorem writable_string (hdepth : depth ≤ depthLimit) (s : String) :
    Writable depth (.string s) where
  ordered := trivial
  printable := ⟨rfl, hdepth, by simp [numbers]⟩

/-- A document that was read can be written and read back if its numbers can. -/
theorem writable_of_read {text : String} {document : Document}
    (hread : (read? text).bind Document.ofJson? = some document)
    (hnumbers : ∀ n ∈ document.value.numbers, n.Survives) : Writable 0 document.value := by
  obtain ⟨v, hv, hdocument⟩ := Option.bind_eq_some_iff.1 hread
  obtain ⟨hreadable, heq⟩ := Option.dite_none_right_eq_some.1 hdocument
  cases heq
  refine ⟨ordered_canonical v, isReadable_canonical v hreadable, ?_, hnumbers⟩
  rw [Nat.zero_add]
  exact Nat.le_trans (depth_canonical_le v) (fits_of_read? hv hreadable)

theorem Writable.read_pretty (h : Writable 0 v) : ∃ document : Document, document.value = v ∧
    (read? v.pretty).bind Document.ofJson? = some document := by
  refine ⟨⟨v, h.ordered, h.printable.readable⟩, rfl, ?_⟩
  rw [read?_pretty h.printable, Option.bind_some]
  exact Document.ofJson?_value ⟨v, h.ordered, h.printable.readable⟩

end Sitewright.Json
