import Mathlib.Data.List.Chain
import Uringcore.Lib.Machine

/-!
# Alternating calls

A machine whose steps make calls, at most one a step and each in some channel. The calls in a channel
alternate if no two neighbours are the same, and the first differs from a given one
(`AlternatesFrom`).

`Machine.alternates_iff_meets` reads this off the steps: with the last call of every channel as a
history (`lastCall`), the calls of a run alternate if and only if every step that calls makes a call
other than the last of its channel.
-/

/-- Neighbours differ, and the first one differs from `first`. -/
def AlternatesFrom {α : Type*} (first : α) (calls : List α) : Prop :=
  (first :: calls).IsChain (· ≠ ·)

section
variable {α : Type*} {first c : α} {calls : List α}

@[simp] theorem alternatesFrom_nil : AlternatesFrom first [] := List.isChain_singleton _

theorem alternatesFrom_concat :
    AlternatesFrom first (calls ++ [c]) ↔
      AlternatesFrom first calls ∧ (calls.getLast?).getD first ≠ c := by
  have hlast : (first :: calls).getLast? = some ((calls.getLast?).getD first) := by
    cases calls with
    | nil => rfl
    | cons x xs => simp [List.getLast?_cons]
  unfold AlternatesFrom
  rw [← List.cons_append, List.isChain_append, hlast]
  simp

instance [DecidableEq α] : Decidable (AlternatesFrom first calls) :=
  inferInstanceAs (Decidable (List.IsChain _ _))

end

namespace Machine
variable {σ β ι α : Type*} [DecidableEq ι]

/-- The last call of every channel; `call?` is what a step calls. -/
def lastCall (call? : σ → β → Option (ι × α)) (s : σ) (b : β) (_ : σ) (last : ι → α) : ι → α :=
  match call? s b with
  | some (i, c) => Function.update last i c
  | none => last

/-- The step makes no call, or another one than the last of its channel. -/
def NewCall (call? : σ → β → Option (ι × α)) (x : σ × (ι → α)) (b : β) : Prop :=
  ∀ p ∈ call? x.1 b, x.2 p.1 ≠ p.2

instance [DecidableEq α] (call? : σ → β → Option (ι × α)) (x : σ × (ι → α)) (b : β) :
    Decidable (NewCall call? x b) := Option.decidableForallMem _

/-- The calls of a run alternate, in every channel, if and only if every step that calls makes a call
other than the last of its channel. -/
theorem alternates_iff_meets {M : Machine σ β} {call? : σ → β → Option (ι × α)}
    {calls : σ → ι → List α}
    (hstep : ∀ s b t, M.step s b = some t → ∀ i, calls t i = calls s i ++
      (call? s b).toList.filterMap fun p => if p.1 = i then some p.2 else none)
    (first : α) {s t : σ} {bs : List β} (hnil : ∀ i, calls s i = []) (hrun : M.run s bs = some t) :
    (∀ i, AlternatesFrom first (calls t i)) ↔
      (M.ghost (lastCall call?)).Meets (NewCall call?) (s, fun _ => first) bs := by
  obtain ⟨last, hghost⟩ := run_ghost (lastCall call?) hrun fun _ => first
  -- the history is the last call
  have hinv : ∀ (x : σ × (ι → α)) (b : β) (y : σ × (ι → α)),
      (∀ i, x.2 i = ((calls x.1 i).getLast?).getD first) →
      (M.ghost (lastCall call?)).step x b = some y →
      (∀ i, y.2 i = ((calls y.1 i).getLast?).getD first) ∧
        ((∀ i, AlternatesFrom first (calls y.1 i)) ↔
          (∀ i, AlternatesFrom first (calls x.1 i)) ∧ NewCall call? x b) := by
    intro x b y hlast hstep'
    obtain ⟨hmove, hy⟩ := ghost_step_eq_some.mp hstep'
    have hcalls := hstep x.1 b y.1 hmove
    unfold lastCall at hy
    unfold NewCall
    cases hcall : call? x.1 b with
    | none =>
      rw [hcall] at hy hcalls
      simp only [Option.toList_none, List.filterMap_nil, List.append_nil] at hcalls
      simp [hy, hcalls, hlast]
    | some p =>
      obtain ⟨j, c⟩ := p
      rw [hcall] at hy hcalls
      simp only [Option.toList_some, List.filterMap_cons, List.filterMap_nil] at hcalls
      have hj : calls y.1 j = calls x.1 j ++ [c] := by simpa using hcalls j
      have hother : ∀ i, i ≠ j → calls y.1 i = calls x.1 i := by
        intro i hi
        simpa [Ne.symm hi] using hcalls i
      constructor
      · intro i
        by_cases hi : i = j
        · subst hi
          simp [hy, hj]
        · simp [hy, hi, hother i hi, hlast i]
      · have halt : AlternatesFrom first (calls y.1 j) ↔
            AlternatesFrom first (calls x.1 j) ∧ x.2 j ≠ c := by
          rw [hj, alternatesFrom_concat, hlast j]
        simp only [Option.mem_some_iff, forall_eq']
        constructor
        · intro h
          refine ⟨fun i => ?_, (halt.mp (h j)).2⟩
          by_cases hi : i = j
          · exact hi ▸ (halt.mp (h j)).1
          · exact hother i hi ▸ h i
        · rintro ⟨h, hne⟩ i
          by_cases hi : i = j
          · exact hi ▸ halt.mpr ⟨h j, hne⟩
          · exact hother i hi ▸ h i
  have hiff := holds_iff_meets hinv (by simp [hnil]) hghost
  simpa [hnil] using hiff

end Machine
