import Mathlib.Data.Option.Basic

/-!
# Machines whose choices are all in their labels

A `Machine` is a partial step function: whatever the environment decides (which thread moves, what
a call is answered, which operation completes) is part of the label, so a run is determined by its
first state and its list of labels. `none` says that a label is not possible in a state.

* `Machine.run` — the state after a list of labels.
* `Machine.Meets` — every step of a run satisfies a condition on the state before it and its label.
* `Machine.Always` — every state of a run, the first and the last included, has a property.
* `Machine.run_invariant` — the one induction behind every statement about runs: what one step
  preserves under the condition, a whole run preserves.
* `Machine.ghost` — the same machine with a history variable. It has the runs of the original
  (`run_ghost`, `run_of_run_ghost`), so a property may be stated with the history it needs.
-/

structure Machine (σ : Type*) (α : Type*) where
  step : σ → α → Option σ

namespace Machine
variable {σ α γ : Type*} (M : Machine σ α)

/-- The state after performing the labels in order. -/
def run : σ → List α → Option σ
  | s, [] => some s
  | s, a :: as => (M.step s a).bind fun t => run t as

/-- Every step of the run from `s` satisfies `C`, read in the state before the step. -/
def Meets (C : σ → α → Prop) : σ → List α → Prop
  | _, [] => True
  | s, a :: as => C s a ∧ ∀ t ∈ M.step s a, Meets C t as

instance decidableMeets (C : σ → α → Prop) [∀ s a, Decidable (C s a)] :
    ∀ s as, Decidable (M.Meets C s as)
  | _, [] => isTrue trivial
  | s, a :: as =>
    have : ∀ t, Decidable (M.Meets C t as) := fun t => decidableMeets C t as
    inferInstanceAs (Decidable (C s a ∧ ∀ t ∈ M.step s a, M.Meets C t as))

/-- Every state that the run from `s` goes through satisfies `P`. -/
def Always (P : σ → Prop) : σ → List α → Prop
  | s, [] => P s
  | s, a :: as => P s ∧ ∀ t ∈ M.step s a, Always P t as

@[simp] theorem run_nil (s : σ) : M.run s [] = some s := rfl

theorem run_cons (s : σ) (a : α) (as : List α) :
    M.run s (a :: as) = (M.step s a).bind fun t => M.run t as := rfl

/-- A run that starts with `a` goes through the state `a` leads to. -/
theorem run_cons_eq_some {s u : σ} {a : α} {as : List α} :
    M.run s (a :: as) = some u ↔ ∃ t, M.step s a = some t ∧ M.run t as = some u := by
  rw [run_cons, Option.bind_eq_some_iff]

theorem run_append (s : σ) (as bs : List α) :
    M.run s (as ++ bs) = (M.run s as).bind fun t => M.run t bs := by
  induction as generalizing s with
  | nil => rfl
  | cons a as ih =>
    rw [List.cons_append, run_cons, run_cons, Option.bind_assoc]
    congr 1
    funext t
    exact ih t

@[simp] theorem meets_nil (C : σ → α → Prop) (s : σ) : M.Meets C s [] ↔ True := Iff.rfl

theorem meets_cons {C : σ → α → Prop} {s t : σ} {a : α} (as : List α) (h : M.step s a = some t) :
    M.Meets C s (a :: as) ↔ C s a ∧ M.Meets C t as := by
  simp [Meets, h]

variable {M}

theorem Meets.mono {C D : σ → α → Prop} (hCD : ∀ s a, C s a → D s a) {s : σ} {as : List α}
    (h : M.Meets C s as) : M.Meets D s as := by
  induction as generalizing s with
  | nil => trivial
  | cons a as ih => exact ⟨hCD s a h.1, fun t ht => ih (h.2 t ht)⟩

theorem Meets.and {C D : σ → α → Prop} {s : σ} {as : List α} (hC : M.Meets C s as)
    (hD : M.Meets D s as) : M.Meets (fun s a => C s a ∧ D s a) s as := by
  induction as generalizing s with
  | nil => trivial
  | cons a as ih => exact ⟨⟨hC.1, hD.1⟩, fun t ht => ih (hC.2 t ht) (hD.2 t ht)⟩

/-- A condition on the labels alone. -/
theorem meets_of_forall {P : α → Prop} {s : σ} {as : List α} (h : ∀ a ∈ as, P a) :
    M.Meets (fun _ a => P a) s as := by
  induction as generalizing s with
  | nil => trivial
  | cons a as ih => exact ⟨h a List.mem_cons_self, fun _ _ => ih fun b hb => h b (List.mem_cons_of_mem a hb)⟩

theorem meets_append {C : σ → α → Prop} {s t : σ} {as : List α} (bs : List α)
    (hrun : M.run s as = some t) :
    M.Meets C s (as ++ bs) ↔ M.Meets C s as ∧ M.Meets C t bs := by
  induction as generalizing s with
  | nil =>
    cases hrun
    simp
  | cons a as ih =>
    obtain ⟨r, hsr, hrt⟩ := M.run_cons_eq_some.mp hrun
    rw [List.cons_append, M.meets_cons _ hsr, M.meets_cons _ hsr, ih hrt, and_assoc]

/-- **The run rule.** A property that every permitted step preserves holds at the end of every run
whose steps are all permitted. -/
theorem run_invariant {C : σ → α → Prop} {I : σ → Prop}
    (hstep : ∀ s a t, I s → C s a → M.step s a = some t → I t) {s u : σ} {as : List α}
    (hI : I s) (hC : M.Meets C s as) (hrun : M.run s as = some u) : I u := by
  induction as generalizing s with
  | nil =>
    cases hrun
    exact hI
  | cons a as ih =>
    obtain ⟨t, hst, htu⟩ := M.run_cons_eq_some.mp hrun
    exact ih (hstep s a t hI hC.1 hst) (hC.2 t hst) htu

/-- The run rule when every step is permitted. -/
theorem run_invariant' {I : σ → Prop} (hstep : ∀ s a t, I s → M.step s a = some t → I t)
    {s u : σ} {as : List α} (hI : I s) (hrun : M.run s as = some u) : I u := by
  induction as generalizing s with
  | nil =>
    cases hrun
    exact hI
  | cons a as ih =>
    obtain ⟨t, hst, htu⟩ := M.run_cons_eq_some.mp hrun
    exact ih (hstep s a t hI hst) htu

/-- When a measure never grows and shrinks at every step outside `C`, a run that ends with the
measure it began with took no step outside `C`. -/
theorem meets_of_measure_eq {C : σ → α → Prop} {I : σ → Prop} (μ : σ → Nat)
    (hstep : ∀ s a t, I s → M.step s a = some t → I t ∧ μ t ≤ μ s ∧ (¬ C s a → μ t < μ s))
    {s u : σ} {as : List α} (hI : I s) (hrun : M.run s as = some u) :
    μ u ≤ μ s ∧ (μ u = μ s → M.Meets C s as) := by
  induction as generalizing s with
  | nil =>
    cases hrun
    exact ⟨Nat.le_refl _, fun _ => trivial⟩
  | cons a as ih =>
    obtain ⟨t, hst, htu⟩ := M.run_cons_eq_some.mp hrun
    obtain ⟨hIt, hle, hlt⟩ := hstep s a t hI hst
    obtain ⟨hle', hmeets⟩ := ih hIt htu
    refine ⟨Nat.le_trans hle' hle, fun heq => (M.meets_cons as hst).mpr ⟨?_, hmeets (by omega)⟩⟩
    by_contra hC
    have := hlt hC
    omega

/-- What an invariant permits, every step of every run is. -/
theorem meets_of_invariant {I : σ → Prop} {C : σ → α → Prop}
    (hstep : ∀ s a t, I s → M.step s a = some t → I t) (hC : ∀ s a, I s → C s a) {s : σ}
    (hI : I s) (as : List α) : M.Meets C s as := by
  induction as generalizing s with
  | nil => trivial
  | cons a as ih => exact ⟨hC s a hI, fun t ht => ih (hstep s a t hI ht)⟩

/-- **Counting.** When a rank never grows and shrinks at every counted label, a run has no more counted
labels than the rank goes down. `P` restricts the labels. -/
theorem countP_le_of_rank {P : α → Prop} {I : σ → Prop} (rank : σ → Nat) (counted : α → Bool)
    (hstep : ∀ s a t, I s → P a → M.step s a = some t →
      I t ∧ rank t + (if counted a then 1 else 0) ≤ rank s)
    {s u : σ} {as : List α} (hI : I s) (hP : ∀ a ∈ as, P a) (hrun : M.run s as = some u) :
    rank u + as.countP counted ≤ rank s := by
  induction as generalizing s with
  | nil =>
    cases hrun
    simp
  | cons a as ih =>
    obtain ⟨t, hst, htu⟩ := M.run_cons_eq_some.mp hrun
    obtain ⟨hIt, hle⟩ := hstep s a t hI (hP a List.mem_cons_self) hst
    have hrest := ih hIt (fun b hb => hP b (List.mem_cons_of_mem a hb)) htu
    rw [List.countP_cons]
    omega

theorem Always.head {P : σ → Prop} {s : σ} {as : List α} (h : M.Always P s as) : P s := by
  cases as with
  | nil => exact h
  | cons a as => exact h.1

theorem always_append {P : σ → Prop} {s t : σ} {as : List α} (bs : List α)
    (hrun : M.run s as = some t) :
    M.Always P s (as ++ bs) ↔ M.Always P s as ∧ M.Always P t bs := by
  induction as generalizing s with
  | nil =>
    cases hrun
    exact ⟨fun h => ⟨h.head, h⟩, fun h => h.2⟩
  | cons a as ih =>
    obtain ⟨r, hsr, hrt⟩ := M.run_cons_eq_some.mp hrun
    constructor
    · intro h
      have hrest := (ih hrt).mp (h.2 r hsr)
      refine ⟨⟨h.1, fun r' hr' => ?_⟩, hrest.2⟩
      obtain rfl := Option.some_inj.mp (hsr.symm.trans hr')
      exact hrest.1
    · intro h
      refine ⟨h.1.1, fun r' hr' => ?_⟩
      obtain rfl := Option.some_inj.mp (hsr.symm.trans hr')
      exact (ih hrt).mpr ⟨h.1.2 r hr', h.2⟩

/-- What a state with `P` permits, every step of a run through such states is. -/
theorem Always.meets {P : σ → Prop} {C : σ → α → Prop} (hC : ∀ s a, P s → C s a) {s : σ}
    {as : List α} (h : M.Always P s as) : M.Meets C s as := by
  induction as generalizing s with
  | nil => trivial
  | cons a as ih => exact ⟨hC s a h.1, fun t ht => ih (h.2 t ht)⟩

/-- **The exact condition.** When a step from a state with `P` leads to one with `P` if and only if
it is permitted, `P` holds all along a run if and only if all of its steps are permitted. -/
theorem always_iff_meets {I P : σ → Prop} {C : σ → α → Prop}
    (hstep : ∀ s a t, I s → P s → M.step s a = some t → I t ∧ (P t ↔ C s a))
    {s u : σ} {as : List α} (hI : I s) (hP : P s) (hrun : M.run s as = some u) :
    M.Always P s as ↔ M.Meets C s as := by
  induction as generalizing s with
  | nil => exact iff_of_true hP trivial
  | cons a as ih =>
    obtain ⟨t, hst, htu⟩ := M.run_cons_eq_some.mp hrun
    obtain ⟨hIt, hiff⟩ := hstep s a t hI hP hst
    rw [M.meets_cons as hst]
    constructor
    · intro h
      have ht := h.2 t hst
      exact ⟨hiff.mp ht.head, (ih hIt ht.head htu).mp ht⟩
    · intro h
      refine ⟨hP, fun t' ht' => ?_⟩
      obtain rfl := Option.some_inj.mp (hst.symm.trans ht')
      exact (ih hIt (hiff.mpr h.1) htu).mpr h.2

/-- When a step ends with `P` if and only if it began with `P` and was permitted, a run does so if
and only if it began with `P` and all of its steps were permitted. -/
theorem holds_iff_meets {I P : σ → Prop} {C : σ → α → Prop}
    (hstep : ∀ s a t, I s → M.step s a = some t → I t ∧ (P t ↔ P s ∧ C s a))
    {s u : σ} {as : List α} (hI : I s) (hrun : M.run s as = some u) :
    P u ↔ P s ∧ M.Meets C s as := by
  induction as generalizing s with
  | nil =>
    cases hrun
    simp
  | cons a as ih =>
    obtain ⟨t, hst, htu⟩ := M.run_cons_eq_some.mp hrun
    obtain ⟨hIt, hiff⟩ := hstep s a t hI hst
    rw [M.meets_cons as hst, ih hIt htu, hiff, and_assoc]

/-! ## History variables -/

/-- `M` with a history variable that `upd` computes from the state before the step, the label and
the state after it. -/
def ghost (M : Machine σ α) (upd : σ → α → σ → γ → γ) : Machine (σ × γ) α where
  step s a := (M.step s.1 a).map fun t => (t, upd s.1 a t s.2)

theorem ghost_step_eq_some {upd : σ → α → σ → γ → γ} {s t : σ × γ} {a : α} :
    (M.ghost upd).step s a = some t ↔ M.step s.1 a = some t.1 ∧ t.2 = upd s.1 a t.1 s.2 := by
  simp only [ghost, Option.map_eq_some_iff, Prod.ext_iff]
  constructor
  · rintro ⟨t₁, h, rfl, h₂⟩
    exact ⟨h, h₂.symm⟩
  · rintro ⟨h, h₂⟩
    exact ⟨t.1, h, rfl, h₂.symm⟩

theorem ghost_step_mk {upd : σ → α → σ → γ → γ} {s t : σ} {g g' : γ} {a : α} :
    (M.ghost upd).step (s, g) a = some (t, g') ↔ M.step s a = some t ∧ g' = upd s a t g :=
  ghost_step_eq_some

/-- Forgetting the history leaves a run of the machine itself. -/
theorem run_of_run_ghost {upd : σ → α → σ → γ → γ} {s t : σ × γ} {as : List α}
    (h : (M.ghost upd).run s as = some t) : M.run s.1 as = some t.1 := by
  induction as generalizing s with
  | nil =>
    cases h
    rfl
  | cons a as ih =>
    obtain ⟨r, hsr, hrt⟩ := (M.ghost upd).run_cons_eq_some.mp h
    exact M.run_cons_eq_some.mpr ⟨r.1, (ghost_step_eq_some.mp hsr).1, ih hrt⟩

/-- A condition that does not read the history. -/
theorem meets_ghost {upd : σ → α → σ → γ → γ} {C : σ → α → Prop} {s : σ} {g : γ} {as : List α} :
    (M.ghost upd).Meets (fun x a => C x.1 a) (s, g) as ↔ M.Meets C s as := by
  induction as generalizing s g with
  | nil => exact Iff.rfl
  | cons a as ih =>
    constructor
    · intro h
      refine ⟨h.1, fun t ht => ?_⟩
      exact ih.mp (h.2 (t, upd s a t g) (ghost_step_mk.mpr ⟨ht, rfl⟩))
    · intro h
      refine ⟨h.1, fun x hx => ?_⟩
      exact ih.mpr (h.2 x.1 (ghost_step_eq_some.mp hx).1)

/-- Every run of the machine is a run with history. -/
theorem run_ghost (upd : σ → α → σ → γ → γ) {s t : σ} {as : List α} (h : M.run s as = some t)
    (g : γ) : ∃ g', (M.ghost upd).run (s, g) as = some (t, g') := by
  induction as generalizing s g with
  | nil =>
    cases h
    exact ⟨g, rfl⟩
  | cons a as ih =>
    obtain ⟨r, hsr, hrt⟩ := M.run_cons_eq_some.mp h
    obtain ⟨g', hg'⟩ := ih hrt (upd s a r g)
    refine ⟨g', (M.ghost upd).run_cons_eq_some.mpr ⟨(r, upd s a r g), ?_, hg'⟩⟩
    exact ghost_step_eq_some.mpr ⟨hsr, rfl⟩

end Machine
