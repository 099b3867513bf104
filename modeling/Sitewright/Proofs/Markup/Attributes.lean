import Mathlib.Data.List.Induction
import Sitewright.Mapping.Basic
import Sitewright.Markup.Basic
import Sitewright.Proofs.Table

/-!
# Attributes of markup

An attribute that is set several times has the value that was written last. Where the values are
those of a table under other names, that is the value of the greatest name that was changed into the
attribute's name.
-/

namespace Sitewright.Table

variable {α β : Type} {t : Table α} {key k k' : String} {g : String → String}

theorem lookup_cons_of_eq {e : String × α} (h : e.1 = key) (rest : List (String × α)) :
    (e :: rest).lookup key = some e.2 := by
  rw [List.lookup_cons, beq_iff_eq.2 h.symm]

theorem lookup_cons_of_ne {e : String × α} (h : e.1 ≠ key) (rest : List (String × α)) :
    (e :: rest).lookup key = rest.lookup key := by
  rw [List.lookup_cons, beq_eq_false_iff_ne.2 h.symm]

theorem lookup_reverse_cons (a : String × β) (l : List (String × β)) (key : String) :
    (a :: l).reverse.lookup key =
      (l.reverse.lookup key).or (if a.1 = key then some a.2 else none) := by
  rw [List.reverse_cons, List.lookup_append]
  by_cases h : a.1 = key
  · rw [if_pos h, lookup_cons_of_eq h]
  · rw [if_neg h, lookup_cons_of_ne h]
    rfl

theorem lookup_of_notMem {l : List (String × α)} (h : key ∉ l.map Prod.fst) :
    l.lookup key = none := by
  rw [List.lookup_eq_none_iff]
  intro e he
  simpa using fun heq => h (List.mem_map.2 ⟨e, he, heq.symm⟩)

/-- A list that has each key once is determined by the order of its keys and by the look-ups. -/
theorem eq_of_lookup_eq {l l' : List (String × α)} (hnodup : (l.map Prod.fst).Nodup)
    (hkeys : l.map Prod.fst = l'.map Prod.fst) (h : ∀ key, l.lookup key = l'.lookup key) :
    l = l' := by
  induction l generalizing l' with
  | nil => exact (List.map_eq_nil_iff.1 hkeys.symm).symm
  | cons e rest ih =>
    obtain ⟨e', rest', rfl, he, hrest⟩ := List.map_eq_cons_iff.1 hkeys.symm
    obtain ⟨hnew, hnodup⟩ := List.nodup_cons.1 hnodup
    have hvalue := h e.1
    rw [lookup_cons_of_eq rfl, lookup_cons_of_eq he] at hvalue
    obtain rfl : e = e' := Prod.ext he.symm (Option.some.inj hvalue)
    congr 1
    refine ih hnodup hrest.symm fun key => ?_
    by_cases hkey : e.1 = key
    · rw [← hkey, lookup_of_notMem hnew, lookup_of_notMem (hrest ▸ hnew)]
    · have hrest := h key
      rwa [lookup_cons_of_ne hkey, lookup_cons_of_ne hkey] at hrest

/-- The last value under a name that the values of two entries are written under. -/
theorem lookup_renamed (t : Table α) (f : String → α → Option β) (hle : ¬ k' < k)
    (hg : ∀ j, g j = key ↔ j = k ∨ j = k') :
    (t.entries.filterMap fun e => (f (g e.1) e.2).map fun b => (g e.1, b)).reverse.lookup key =
      ((t.get? k').bind (f key)).or ((t.get? k).bind (f key)) := by
  have hsorted := t.sorted
  rw [get?, get?]
  generalize t.entries = entries at hsorted
  induction entries with
  | nil => rfl
  | cons e rest ih =>
    obtain ⟨hlt, hsorted⟩ := List.pairwise_cons.1 hsorted
    have hstep : ((e :: rest).filterMap fun e =>
        (f (g e.1) e.2).map fun b => (g e.1, b)).reverse.lookup key =
        (((rest.lookup k').bind (f key)).or ((rest.lookup k).bind (f key))).or
          (if g e.1 = key then f (g e.1) e.2 else none) := by
      rw [← ih hsorted, List.filterMap_cons]
      cases f (g e.1) e.2 with
      | none => simp
      | some b => exact lookup_reverse_cons _ _ _
    have hrest : ∀ {j}, ¬ e.1 < j → rest.lookup j = none := by
      intro j hj
      refine lookup_of_notMem fun hmem => ?_
      obtain ⟨e', he', rfl⟩ := List.mem_map.1 hmem
      exact hj (hlt e' he')
    rw [hstep]
    by_cases hk' : e.1 = k'
    · have hnone : rest.lookup k' = none := hrest (hk' ▸ String.lt_irrefl _)
      have hbelow : rest.lookup k = none := hrest (hk' ▸ hle)
      have hkey : g e.1 = key := (hg _).2 (.inr hk')
      rw [if_pos hkey, hkey, hnone, hbelow, lookup_cons_of_eq hk']
      by_cases hk : e.1 = k
      · simp [lookup_cons_of_eq hk]
      · simp [lookup_cons_of_ne hk, hbelow]
    · rw [lookup_cons_of_ne hk']
      by_cases hk : e.1 = k
      · have hnone : rest.lookup k = none := hrest (by rw [hk]; exact String.lt_irrefl _)
        have hkey : g e.1 = key := (hg _).2 (.inl hk)
        rw [if_pos hkey, hkey, hnone, lookup_cons_of_eq hk]
        simp
      · rw [if_neg (mt (hg _).1 (not_or.2 ⟨hk, hk'⟩)), lookup_cons_of_ne hk, Option.or_none]

theorem lookup_renamed_map (t : Table α) (f : α → β) (hle : ¬ k' < k)
    (hg : ∀ j, g j = key ↔ j = k ∨ j = k') :
    (t.entries.map fun e => (g e.1, f e.2)).reverse.lookup key =
      ((t.get? k').or (t.get? k)).map f := by
  have hmap : (t.entries.map fun e => (g e.1, f e.2)) =
      t.entries.filterMap fun e => (some (f e.2)).map fun b => (g e.1, b) :=
    (congrFun List.filterMap_eq_map t.entries).symm
  rw [hmap, t.lookup_renamed (fun _ a => some (f a)) hle hg]
  cases t.get? k' with
  | some a => rfl
  | none => cases t.get? k <;> rfl

end Sitewright.Table

namespace Sitewright.Mapping

variable {m : Mapping} {e : Ui.Element} {key event : String}

/-- The handler that is written last under a name. -/
def handler? (m : Mapping) (e : Ui.Element) (key : String) : Option String :=
  (e.events.entries.map fun x => (m.eventName x.1, x.2)).reverse.lookup key

theorem eventName_eq_iff (hkey : m.events.get? key = none) (hvalue : key ∉ m.events.values) :
    m.eventName event = key ↔ event = key := by
  rw [eventName, eventName?]
  cases h : m.events.get? event with
  | none => rfl
  | some target =>
    refine iff_of_false (fun heq => ?_) (fun heq => ?_)
    · exact hvalue (heq ▸ Table.mem_values_of_get? h)
    · rw [heq, hkey] at h
      cases h

/-- Under a name that no event is changed into stands the handler of the event of this name. -/
theorem lookup_events {β : Type} (f : String → β) (hkey : m.events.get? key = none)
    (hvalue : key ∉ m.events.values) :
    (e.events.entries.map fun x => (m.eventName x.1, f x.2)).reverse.lookup key =
      (e.events.get? key).map f := by
  have hnames : ∀ event, m.eventName event = key ↔ event = key ∨ event = key := fun event => by
    rw [eventName_eq_iff hkey hvalue, or_self]
  rw [e.events.lookup_renamed_map f (String.lt_irrefl key) hnames, Option.or_self]

theorem handler?_eq (hkey : m.events.get? key = none) (hvalue : key ∉ m.events.values) :
    m.handler? e key = e.events.get? key := by
  rw [handler?, lookup_events (fun handler => handler) hkey hvalue, Option.map_id']

end Sitewright.Mapping

namespace Sitewright.Markup

theorem lookup_setAttr (key k : String) (value : Attr) (attrs : List (String × Attr)) :
    (setAttr key value attrs).lookup k = if k = key then some value else attrs.lookup k := by
  induction attrs with
  | nil =>
    rw [setAttr, List.lookup_cons]
    by_cases h : k = key
    · rw [if_pos h, beq_iff_eq.2 h]
    · rw [if_neg h, beq_eq_false_iff_ne.2 h]
  | cons a rest ih =>
    rw [setAttr]
    by_cases ha : a.1 = key
    · rw [if_pos ha, List.lookup_cons, List.lookup_cons, ha]
      by_cases h : k = key
      · rw [if_pos h, beq_iff_eq.2 h]
      · rw [if_neg h, beq_eq_false_iff_ne.2 h]
    · rw [if_neg ha, List.lookup_cons, List.lookup_cons, ih]
      by_cases h : k = key
      · rw [if_pos h, if_pos h, beq_eq_false_iff_ne.2 fun hk => ha (hk.symm.trans h)]
      · rw [if_neg h, if_neg h]

/-- The value of an attribute is the one that was written last. -/
theorem lookup_foldl_setAttr {β : Type} (value : β → Attr) (writes : List (String × β))
    (attrs : List (String × Attr)) (key : String) :
    (writes.foldl (fun attrs a => setAttr a.1 (value a.2) attrs) attrs).lookup key =
      ((writes.reverse.lookup key).map value).or (attrs.lookup key) := by
  induction writes generalizing attrs with
  | nil => rfl
  | cons a rest ih =>
    rw [List.foldl_cons, ih, lookup_setAttr, Table.lookup_reverse_cons]
    cases rest.reverse.lookup key with
    | some b => rfl
    | none =>
      by_cases h : a.1 = key
      · simp [h]
      · simp [h, Ne.symm h]

theorem keys_setAttr (key : String) (value : Attr) (attrs : List (String × Attr)) :
    (setAttr key value attrs).map Prod.fst =
      if key ∈ attrs.map Prod.fst then attrs.map Prod.fst else attrs.map Prod.fst ++ [key] := by
  induction attrs with
  | nil => rfl
  | cons a rest ih =>
    rw [setAttr]
    by_cases ha : a.1 = key
    · simp [ha]
    · rw [if_neg ha, List.map_cons, ih]
      by_cases hmem : key ∈ rest.map Prod.fst
      · have hold : key ∈ (a :: rest).map Prod.fst := List.mem_cons_of_mem _ hmem
        rw [if_pos hmem, if_pos hold]
        rfl
      · have hnew : key ∉ (a :: rest).map Prod.fst :=
          List.not_mem_cons_of_ne_of_not_mem (Ne.symm ha) hmem
        rw [if_neg hmem, if_neg hnew]
        rfl

/-- An attribute stands where it was written first. -/
theorem keys_foldl_setAttr {β : Type} (value : β → Attr) (writes : List (String × β)) :
    (writes.foldl (fun attrs a => setAttr a.1 (value a.2) attrs) []).map Prod.fst =
      (writes.map Prod.fst).eraseDups := by
  induction writes using List.reverseRecOn with
  | nil => rfl
  | append_singleton writes a ih =>
    rw [List.foldl_append, List.foldl_cons, List.foldl_nil, keys_setAttr, ih, List.map_append,
      List.eraseDups_append]
    by_cases hmem : a.1 ∈ writes.map Prod.fst
    · rw [if_pos (List.mem_eraseDups.2 hmem)]
      simp [List.removeAll, hmem]
    · rw [if_neg (mt List.mem_eraseDups.1 hmem)]
      simp [List.removeAll, hmem, List.eraseDups_cons]

/-- Writing attributes leaves the tag and the children of an element as they are. -/
theorem foldl_set {ι : Type} (key : ι → String) (value : ι → Attr) (l : List ι) (e : Element) :
    l.foldl (fun e i => e.set (key i) (value i)) e =
      { e with attrs := l.foldl (fun attrs i => setAttr (key i) (value i) attrs) e.attrs } := by
  induction l generalizing e with
  | nil => rfl
  | cons i l ih => exact ih (e.set (key i) (value i))

mutual
/-- The elements of markup without their children, in the order of the document. -/
def Child.tags : Child → List (String × List (String × Attr))
  | .element tag attrs children => (tag, attrs) :: tagsOfAll children
  | .text _ => []
  | .raw _ => []
  | .expression _ => []

def tagsOfAll : List Child → List (String × List (String × Attr))
  | [] => []
  | child :: rest => child.tags ++ tagsOfAll rest
end

theorem tagsOfAll_append (before after : List Child) :
    tagsOfAll (before ++ after) = tagsOfAll before ++ tagsOfAll after := by
  induction before with
  | nil => rfl
  | cons child rest ih => rw [List.cons_append, tagsOfAll, tagsOfAll, ih, List.append_assoc]

end Sitewright.Markup
