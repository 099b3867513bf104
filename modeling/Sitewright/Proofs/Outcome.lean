import Mathlib.Data.List.Forall2
import Sitewright.Fault

/-!
# Outcomes of several steps

A list of steps comes to a result exactly when each step does, and otherwise to the fault of the
first step that fails.
-/

namespace Sitewright.Outcome

variable {α β : Type}

theorem bind_ok_iff {x : Outcome α} {f : α → Outcome β} {b : β} :
    x >>= f = .ok b ↔ ∃ a, x = .ok a ∧ f a = .ok b := by
  cases x with
  | error e => simp [bind, Except.bind]
  | ok a => simp [bind, Except.bind]

theorem bind_error_iff {x : Outcome α} {f : α → Outcome β} {e : Fault} :
    x >>= f = .error e ↔ x = .error e ∨ ∃ a, x = .ok a ∧ f a = .error e := by
  cases x with
  | error e => simp [bind, Except.bind]
  | ok a => simp [bind, Except.bind]

theorem map_ok_iff {x : Outcome α} {f : α → β} {b : β} :
    x.map f = .ok b ↔ ∃ a, x = .ok a ∧ f a = b := by
  cases x with
  | error e => simp [Except.map]
  | ok a => simp [Except.map]

theorem map_error_iff {x : Outcome α} {f : α → β} {e : Fault} :
    x.map f = .error e ↔ x = .error e := by
  cases x with
  | error e => simp [Except.map]
  | ok a => simp [Except.map]

theorem not_exists_ok_error (a : α) : ¬ ∃ e, (.ok a : Outcome α) = .error e := by
  rintro ⟨e, h⟩
  cases h

theorem exists_map_error_iff {x : Outcome α} {f : α → β} :
    (∃ e, x.map f = .error e) ↔ ∃ e, x = .error e :=
  exists_congr fun _ => map_error_iff

/-- Two steps fail if one of them does. -/
theorem exists_pair_error_iff {γ : Type} {x : Outcome α} {y : Outcome β} {f : α → β → γ} :
    (∃ e, (do let a ← x; let b ← y; pure (f a b)) = .error e) ↔
      (∃ e, x = .error e) ∨ ∃ e, y = .error e := by
  cases x with
  | error e => simp [bind, Except.bind]
  | ok a =>
    cases y with
    | error e => simp [bind, Except.bind]
    | ok b => simp [pure, Except.pure, bind, Except.bind]

theorem toOption_eq_some_iff {x : Outcome α} {a : α} : x.toOption = some a ↔ x = .ok a := by
  cases x with
  | error e => simp [Except.toOption]
  | ok b => simp [Except.toOption]

theorem mapM_ok_iff {f : α → Outcome β} {l : List α} {r : List β} :
    l.mapM f = .ok r ↔ List.Forall₂ (fun a b => f a = .ok b) l r := by
  induction l generalizing r with
  | nil => cases r <;> simp [pure, Except.pure]
  | cons a l ih =>
    rw [List.mapM_cons, bind_ok_iff, List.forall₂_cons_left_iff]
    refine exists_congr fun b => ?_
    simp only [bind_ok_iff, ih]
    constructor
    · rintro ⟨ha, bs, hbs, hr⟩
      exact ⟨bs, ha, hbs, (Except.ok.inj hr).symm⟩
    · rintro ⟨bs, ha, hbs, rfl⟩
      exact ⟨ha, bs, hbs, rfl⟩

theorem length_of_mapM_ok {f : α → Outcome β} {l : List α} {r : List β} (h : l.mapM f = .ok r) :
    r.length = l.length := (mapM_ok_iff.1 h).length_eq.symm

/-- The results of a list of steps stand where the steps do. -/
theorem getElem?_of_mapM_ok {f : α → Outcome β} {l : List α} {r : List β} (h : l.mapM f = .ok r)
    {i : Nat} {b : β} : r[i]? = some b ↔ ∃ a, l[i]? = some a ∧ f a = .ok b := by
  induction mapM_ok_iff.1 h generalizing i with
  | nil => simp
  | @cons a b' l r ha hl ih =>
    cases i with
    | zero => simp [ha]
    | succ i => simpa using ih (mapM_ok_iff.2 hl)

theorem mem_of_mapM_ok {f : α → Outcome β} {l : List α} {r : List β} (h : l.mapM f = .ok r)
    {b : β} : b ∈ r ↔ ∃ a ∈ l, f a = .ok b := by
  simp only [List.mem_iff_getElem?, getElem?_of_mapM_ok h]
  constructor
  · rintro ⟨i, a, ha, hb⟩
    exact ⟨a, ⟨i, ha⟩, hb⟩
  · rintro ⟨a, ⟨i, ha⟩, hb⟩
    exact ⟨i, a, ha, hb⟩

/-- Other steps with results that are made from those of the first come to these results. -/
theorem mapM_ok_map {γ : Type} {f : α → Outcome β} {g : α → Outcome γ} {e : β → γ} {l : List α}
    {r : List β} (h : l.mapM f = .ok r) (hstep : ∀ a ∈ l, ∀ b, f a = .ok b → g a = .ok (e b)) :
    l.mapM g = .ok (r.map e) := by
  induction mapM_ok_iff.1 h with
  | nil => rfl
  | @cons a b l r ha hl ih =>
    obtain ⟨hfirst, hrest⟩ := List.forall_mem_cons.1 hstep
    rw [List.mapM_cons, hfirst b ha, ih (mapM_ok_iff.2 hl) hrest]
    rfl

/-- The fault of a list of steps is that of the first step that fails. -/
theorem mapM_error_iff {f : α → Outcome β} {l : List α} {e : Fault} :
    l.mapM f = .error e ↔ ∃ l₁ a l₂, l = l₁ ++ a :: l₂ ∧
      (∀ x ∈ l₁, ∃ b, f x = .ok b) ∧ f a = .error e := by
  induction l with
  | nil => simp [pure, Except.pure]
  | cons a l ih =>
    rw [List.mapM_cons, bind_error_iff]
    constructor
    · rintro (ha | ⟨b, ha, hl⟩)
      · exact ⟨[], a, l, rfl, by simp, ha⟩
      · rcases bind_error_iff.1 hl with hl | ⟨bs, _, hbs⟩
        · obtain ⟨l₁, x, l₂, rfl, hok, hx⟩ := ih.1 hl
          refine ⟨a :: l₁, x, l₂, rfl, ?_, hx⟩
          intro y hy
          rcases List.mem_cons.1 hy with rfl | hy
          · exact ⟨b, ha⟩
          · exact hok y hy
        · cases hbs
    · rintro ⟨l₁, x, l₂, hl, hok, hx⟩
      cases l₁ with
      | nil =>
        obtain ⟨rfl, rfl⟩ := List.cons.inj hl
        exact .inl hx
      | cons y l₁ =>
        obtain ⟨rfl, rfl⟩ := List.cons.inj hl
        obtain ⟨b, hb⟩ := hok a List.mem_cons_self
        have hrest : (l₁ ++ x :: l₂).mapM f = .error e :=
          ih.2 ⟨l₁, x, l₂, rfl, fun z hz => hok z (List.mem_cons_of_mem _ hz), hx⟩
        exact .inr ⟨b, hb, bind_error_iff.2 (.inl hrest)⟩

/-- A list of checks passes exactly when each check does. -/
theorem forM_ok_iff {f : α → Outcome Unit} {l : List α} :
    l.forM f = .ok () ↔ ∀ a ∈ l, f a = .ok () := by
  induction l with
  | nil => simp [pure, Except.pure]
  | cons a l ih =>
    rw [List.forM_eq_forM, List.forM_cons, bind_ok_iff, List.forall_mem_cons, ← ih]
    constructor
    · rintro ⟨⟨⟩, ha, hl⟩
      exact ⟨ha, hl⟩
    · rintro ⟨ha, hl⟩
      exact ⟨(), ha, hl⟩

theorem exists_ok_or_error (x : Outcome α) : (∃ a, x = .ok a) ∨ ∃ e, x = .error e := by
  cases x with
  | error e => exact .inr ⟨e, rfl⟩
  | ok a => exact .inl ⟨a, rfl⟩

theorem exists_mapM_ok_iff {f : α → Outcome β} {l : List α} :
    (∃ r, l.mapM f = .ok r) ↔ ∀ a ∈ l, ∃ b, f a = .ok b := by
  constructor
  · rintro ⟨r, hr⟩ a ha
    obtain ⟨i, hi⟩ := List.mem_iff_getElem?.1 ha
    have hlt : i < r.length := by
      rw [length_of_mapM_ok hr]
      exact (List.getElem?_eq_some_iff.1 hi).1
    obtain ⟨a', ha', hb⟩ := (getElem?_of_mapM_ok hr).1 (List.getElem?_eq_getElem hlt)
    obtain rfl := Option.some.inj (hi.symm.trans ha')
    exact ⟨_, hb⟩
  · intro hall
    rcases exists_ok_or_error (l.mapM f) with hr | ⟨e, he⟩
    · exact hr
    · obtain ⟨l₁, a, l₂, rfl, _, hx⟩ := mapM_error_iff.1 he
      obtain ⟨b, hb⟩ := hall a (by simp)
      rw [hb] at hx
      cases hx

end Sitewright.Outcome
