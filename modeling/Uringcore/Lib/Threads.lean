import Mathlib.Algebra.GroupWithZero.Nat
import Mathlib.Data.List.Perm.Basic

/-!
# Threads that share a state

`Threads σ τ` is a shared state with a list of threads, each in a local state (its program counter
and its variables). One thread at a time takes one atomic step.

* `Asserts A` — every thread satisfies its assertion `A`, in which thread number, local state and
  shared state may occur. `Asserts.set` is the rule for one step of one thread: it proves its own
  new assertion, and that it does not interfere with the assertions of the others.
* `Owns` — the assertion that ties a lock to the threads: a thread is inside a section of the lock
  if and only if the lock names it. `Owns.others` says that taking and giving back a lock does not
  interfere with anybody.
* `flatMap_set_perm`, `sum_map_set` — what all threads have in their hands, and a measure of all
  threads, when one of them moves.
* `exists_set`, `holder_lt` — what is still there after a move: a thread at a certain point, unless
  it is the one that moved, and the thread that a lock names.
-/

structure Threads (σ τ : Type*) where
  shared : σ
  locals : List τ

namespace Threads
variable {σ τ β : Type*}

/-- Thread `i` takes its next step, if it can. -/
def advance (next : Nat → τ → σ → Option (σ × τ)) (i : Nat) (s : Threads σ τ) :
    Option (Threads σ τ) :=
  s.locals[i]?.bind fun l => (next i l s.shared).map fun r => ⟨r.1, s.locals.set i r.2⟩

theorem advance_eq_some {next : Nat → τ → σ → Option (σ × τ)} {i : Nat} {s t : Threads σ τ} :
    s.advance next i = some t ↔ ∃ l g l', s.locals[i]? = some l ∧
      next i l s.shared = some (g, l') ∧ t = ⟨g, s.locals.set i l'⟩ := by
  simp only [advance, Option.bind_eq_some_iff, Option.map_eq_some_iff]
  constructor
  · rintro ⟨l, hl, ⟨g, l'⟩, hnext, rfl⟩
    exact ⟨l, g, l', hl, hnext, rfl⟩
  · rintro ⟨l, g, l', hl, hnext, rfl⟩
    exact ⟨l, hl, (g, l'), hnext, rfl⟩

/-- Every thread satisfies its assertion. -/
def Asserts (A : Nat → τ → σ → Prop) (s : Threads σ τ) : Prop :=
  ∀ i l, s.locals[i]? = some l → A i l s.shared

/-- One thread moves: its own new assertion holds, and the assertions of the others are kept. -/
theorem Asserts.set {A : Nat → τ → σ → Prop} {s : Threads σ τ} (h : s.Asserts A) {i : Nat} {g : σ}
    {l' : τ} (hself : A i l' g) (hothers : ∀ j l, j ≠ i → A j l s.shared → A j l g) :
    (Threads.mk g (s.locals.set i l')).Asserts A := by
  intro j l hj
  rw [List.getElem?_set] at hj
  split at hj
  · rename_i heq
    subst heq
    split at hj
    · cases hj
      exact hself
    · cases hj
  · rename_i hne
    exact hothers j l (Ne.symm hne) (h j l hj)

/-- What a thread that moves puts down and picks up, all others keep. -/
theorem flatMap_set_perm {locals : List τ} {i : Nat} {l : τ} (h : locals[i]? = some l) (l' : τ)
    (f : τ → List β) :
    (f l ++ (locals.set i l').flatMap f).Perm (f l' ++ locals.flatMap f) := by
  induction locals generalizing i with
  | nil => cases h
  | cons a locals ih =>
    cases i with
    | zero =>
      cases h
      simp only [List.set_cons_zero, List.flatMap_cons, ← List.append_assoc]
      exact List.perm_append_comm.append_right _
    | succ i =>
      have ih := ih h
      simp only [List.set_cons_succ, List.flatMap_cons]
      have hswap (x y z : List β) : (x ++ (y ++ z)).Perm (y ++ (x ++ z)) := by
        rw [← List.append_assoc, ← List.append_assoc]
        exact List.perm_append_comm.append_right _
      exact (hswap _ _ _).trans ((ih.append_left _).trans (hswap _ _ _))

/-- The same for a measure of each thread. -/
theorem sum_map_set {locals : List τ} {i : Nat} {l : τ} (h : locals[i]? = some l) (l' : τ)
    (f : τ → Nat) : f l + ((locals.set i l').map f).sum = f l' + (locals.map f).sum := by
  induction locals generalizing i with
  | nil => cases h
  | cons a locals ih =>
    cases i with
    | zero =>
      cases h
      simp only [List.set_cons_zero, List.map_cons, List.sum_cons]
      omega
    | succ i =>
      have ih := ih h
      simp only [List.set_cons_succ, List.map_cons, List.sum_cons]
      omega

/-- Where some thread is at a point `P`, one still is after the move of a thread that is not. -/
theorem exists_set {P : τ → Prop} {locals : List τ} {i : Nat} {l : τ} (h : locals[i]? = some l)
    (hl : ¬ P l) (l' : τ) (hex : ∃ a ∈ locals, P a) : ∃ a ∈ locals.set i l', P a := by
  obtain ⟨a, ha, hP⟩ := hex
  obtain ⟨j, hj⟩ := List.mem_iff_getElem?.mp ha
  have hij : i ≠ j := by
    rintro rfl
    rw [h] at hj
    cases hj
    exact hl hP
  refine ⟨a, List.mem_iff_getElem?.mpr ⟨j, ?_⟩, hP⟩
  rw [List.getElem?_set_ne hij]
  exact hj

/-! ## Locks -/

/-- Thread `i` is inside a section of the lock exactly when the lock names it. -/
def Owns (lock : Option Nat) (i : Nat) (inside : Bool) : Prop := inside = true ↔ lock = some i

/-- Taking a free lock, giving back one's own lock and leaving the lock alone do not interfere with
the other threads. -/
theorem Owns.others {lock lock' : Option Nat} {i j : Nat} {inside : Bool} (hij : j ≠ i)
    (h : Owns lock j inside)
    (hstep : lock' = lock ∨ lock = none ∧ lock' = some i ∨ lock = some i ∧ lock' = none) :
    Owns lock' j inside := by
  have hji : i ≠ j := Ne.symm hij
  obtain rfl | ⟨rfl, rfl⟩ | ⟨rfl, rfl⟩ := hstep
  · exact h
  · simpa [Owns, hji] using h
  · simpa [Owns, hji] using h

/-- A lock that thread `i` takes, gives back or leaves alone still names a thread there is. -/
theorem holder_lt {lock lock' : Option Nat} {i n : Nat} (hi : i < n)
    (h : ∀ k, lock = some k → k < n)
    (hstep : lock' = lock ∨ lock = none ∧ lock' = some i ∨ lock = some i ∧ lock' = none) {k : Nat}
    (hk : lock' = some k) : k < n := by
  obtain rfl | ⟨-, rfl⟩ | ⟨-, rfl⟩ := hstep
  · exact h k hk
  · cases hk
    exact hi
  · cases hk

end Threads
