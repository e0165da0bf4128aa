import Mathlib.Data.List.Perm.Basic

/-!
# A binary heap on an array

The standard library's `BinaryHeap`, by its own algorithm: `push` appends and sifts up; `pop` puts
the last element at the root, sinks it along the greater children all the way to the bottom and
sifts it up from there. The order is any Boolean relation `le`. What is said of the heap's
*content* (`push_perm`, `pop_perm`) does not assume that it is transitive or total, so it holds for
an order with incomparable elements too. An element that travels through a
hole is swapped along here, which leaves the same array at the end.

Where `le` is transitive and total (`TotalOn`, on the elements with a property), the array is kept in
heap order (`Ordered`) and `peek` shows a greatest element.
-/

namespace BinaryHeap
variable {α : Type*} (le : α → α → Bool)

/-- `sift_up` from `pos`, not above position `start`. -/
def siftUp (start : Nat) (a : Array α) (pos : Nat) : Array α :=
  if h : start < pos ∧ pos < a.size then
    if le a[pos] a[(pos - 1) / 2] then a
    else siftUp start (a.swap pos ((pos - 1) / 2)) ((pos - 1) / 2)
  else a
termination_by pos

/-- The loop of `sift_down_to_bottom`: the element at `pos` changes places with its greater child
until it has none. The final position is returned too. -/
def sinkToBottom (a : Array α) (pos : Nat) : Array α × Nat :=
  if h : 2 * pos + 2 < a.size then
    if le a[2 * pos + 1] a[2 * pos + 2] then
      sinkToBottom (a.swap pos (2 * pos + 2)) (2 * pos + 2)
    else sinkToBottom (a.swap pos (2 * pos + 1)) (2 * pos + 1)
  else if h : 2 * pos + 1 < a.size then (a.swap pos (2 * pos + 1), 2 * pos + 1)
  else (a, pos)
termination_by a.size - pos
decreasing_by all_goals simp only [Array.size_swap]; omega

def siftDownToBottom (a : Array α) (pos : Nat) : Array α :=
  let r := sinkToBottom le a pos
  siftUp le pos r.1 r.2

def push (x : α) (a : Array α) : Array α := siftUp le 0 (a.push x) a.size

def peek (a : Array α) : Option α := a[0]?

/-- `pop`: the last element is taken off and, unless it was the only one, changed for the root. -/
def pop (a : Array α) : Option (α × Array α) :=
  match a.back? with
  | none => none
  | some last =>
      if h : 0 < a.pop.size then some (a.pop[0], siftDownToBottom le (a.pop.set 0 last) 0)
      else some (last, a.pop)

/-! ## The content -/

theorem siftUp_perm (start : Nat) (a : Array α) (pos : Nat) :
    (siftUp le start a pos).toList.Perm a.toList := by
  fun_induction siftUp le start a pos with
  | case1 => exact List.Perm.refl _
  | case2 a pos h hle ih => exact ih.trans (Array.swap_perm _ _).toList
  | case3 => exact List.Perm.refl _

theorem sinkToBottom_perm (a : Array α) (pos : Nat) :
    (sinkToBottom le a pos).1.toList.Perm a.toList := by
  fun_induction sinkToBottom le a pos with
  | case1 a pos h hle ih => exact ih.trans (Array.swap_perm _ _).toList
  | case2 a pos h hle ih => exact ih.trans (Array.swap_perm _ _).toList
  | case3 => exact (Array.swap_perm _ _).toList
  | case4 => exact List.Perm.refl _

theorem siftDownToBottom_perm (a : Array α) (pos : Nat) :
    (siftDownToBottom le a pos).toList.Perm a.toList :=
  (siftUp_perm le ..).trans (sinkToBottom_perm le a pos)

theorem push_perm (x : α) (a : Array α) : (push le x a).toList.Perm (x :: a.toList) := by
  refine (siftUp_perm le ..).trans ?_
  rw [Array.toList_push]
  exact List.perm_append_comm

/-- A pop takes the element `peek` shows and leaves the others. -/
theorem pop_perm {a b : Array α} {x : α} (h : pop le a = some (x, b)) :
    peek a = some x ∧ a.toList.Perm (x :: b.toList) := by
  obtain ⟨l, rfl⟩ : ∃ l : List α, a = l.toArray := ⟨a.toList, rfl⟩
  rcases List.eq_nil_or_concat l with rfl | ⟨l, last, rfl⟩
  · simp [pop] at h
  · cases l with
    | nil =>
      simp [pop] at h
      obtain ⟨rfl, rfl⟩ := h
      exact ⟨rfl, List.Perm.refl _⟩
    | cons y l =>
      simp [pop] at h
      obtain ⟨rfl, rfl⟩ := h
      have hset : (x :: (l ++ [last])).dropLast.set 0 last = last :: l := by
        rw [← List.cons_append, List.dropLast_concat]
        rfl
      have hbottom := siftDownToBottom_perm le (last :: l).toArray 0
      refine ⟨by simp [peek], ?_⟩
      simpa [hset] using (List.perm_append_singleton last l).trans hbottom.symm

/-- What is on top can be popped. -/
theorem pop_of_peek {a : Array α} {x : α} (h : peek a = some x) : ∃ b, pop le a = some (x, b) := by
  cases hpop : pop le a with
  | none =>
    unfold pop at hpop
    split at hpop
    · rename_i hback
      rw [Array.back?_eq_none_iff.mp hback] at h
      cases h
    · split at hpop <;> cases hpop
  | some r =>
    obtain ⟨y, b⟩ := r
    have hpeek := (pop_perm le hpop).1
    rw [h, Option.some_inj] at hpeek
    subst hpeek
    exact ⟨b, rfl⟩

theorem size_lt_of_pop {a b : Array α} {x : α} (h : pop le a = some (x, b)) : b.size < a.size := by
  have hlen := (pop_perm le h).2.length_eq
  simp only [Array.length_toList, List.length_cons] at hlen
  omega

/-! ## The order -/

/-- `le` is transitive and total on the elements with `P`. -/
structure TotalOn (P : α → Prop) : Prop where
  trans : ∀ x y z, P x → P y → P z → le x y = true → le y z = true → le x z = true
  total : ∀ x y, P x → P y → le x y = true ∨ le y x = true

/-- No element is greater than its parent. -/
def Ordered (a : Array α) : Prop := ∀ i (_ : i < a.size), 0 < i → le a[i] a[(i - 1) / 2] = true

/-- So it is but for the element at `pos`; without it, too. -/
structure OrderedBut (a : Array α) (pos : Nat) : Prop where
  others : ∀ i (_ : i < a.size), 0 < i → i ≠ pos → (i - 1) / 2 ≠ pos → le a[i] a[(i - 1) / 2] = true
  grand : ∀ i (_ : i < a.size), 0 < pos → 0 < i → (i - 1) / 2 = pos →
    le a[i] a[((i - 1) / 2 - 1) / 2] = true

/-- The children of the element at `pos` are not greater. -/
def Below (a : Array α) (pos : Nat) : Prop :=
  ∀ i (_ : i < a.size), 0 < i → (i - 1) / 2 = pos → le a[i] a[(i - 1) / 2] = true

variable {le} {P : α → Prop} {a : Array α} {pos : Nat}

/-- The element at `pos` changes places with its parent, which is not greater. -/
theorem OrderedBut.up (hle : TotalOn le P) (hP : ∀ i (_ : i < a.size), P a[i]) (hpos : 0 < pos)
    (hlt : pos < a.size) (h : OrderedBut le a pos)
    (hnot : ¬ le a[pos] a[(pos - 1) / 2] = true) :
    OrderedBut le (a.swap pos ((pos - 1) / 2)) ((pos - 1) / 2) ∧
      Below le (a.swap pos ((pos - 1) / 2)) ((pos - 1) / 2) := by
  have hparent : le a[(pos - 1) / 2] a[pos] = true :=
    (hle.total _ _ (hP _ (by omega)) (hP _ hlt)).resolve_right hnot
  refine ⟨⟨?_, ?_⟩, ?_⟩
  · intro i hi hpos' hne hne'
    rw [Array.size_swap] at hi
    have := h.others i hi hpos' 
    have := h.grand i hi hpos hpos'
    grind
  · intro i hi hpos' hi' hchild
    rw [Array.size_swap] at hi
    have h₁ := h.others ((pos - 1) / 2) (by omega) hpos' (by omega) (by omega)
    have h₂ := h.others i hi hi'
    have h₃ := hle.trans a[i] a[(pos - 1) / 2] a[((pos - 1) / 2 - 1) / 2] (hP _ _) (hP _ _) (hP _ _)
    grind
  · intro i hi hi' hchild
    rw [Array.size_swap] at hi
    have h₂ := h.others i hi hi'
    have h₃ := hle.trans a[i] a[(pos - 1) / 2] a[pos] (hP _ _) (hP _ _) (hP _ _)
    grind

theorem swap_all {i j : Nat} (hP : ∀ i (_ : i < a.size), P a[i]) (hi : i < a.size) (hj : j < a.size) :
    ∀ k (_ : k < (a.swap i j).size), P (a.swap i j)[k] := by
  intro k hk
  have h₁ := hP i hi
  have h₂ := hP j hj
  have h₃ := hP k (by simpa using hk)
  grind

theorem ordered_siftUp (hle : TotalOn le P) (hP : ∀ i (_ : i < a.size), P a[i])
    (hlt : pos < a.size) (h : OrderedBut le a pos)
    (hbelow : Below le a pos) : Ordered le (siftUp le 0 a pos) := by
  fun_induction siftUp le 0 a pos with
  | case1 a pos hpos hstop =>
    intro i hi hi'
    have h₁ := h.others i hi hi'
    have h₂ := hbelow i hi hi'
    grind
  | case2 a pos hpos hnot ih =>
    have hup := h.up hle hP hpos.1 hlt hnot
    exact ih (swap_all hP _ _) (by simp; omega) hup.1 hup.2
  | case3 a pos hroot =>
    intro i hi hi'
    have h₁ := h.others i hi hi'
    have h₂ := hbelow i hi hi'
    grind

/-- The element at `pos` changes places with `child`, the greater of its children. -/
theorem OrderedBut.down (h : OrderedBut le a pos) {child : Nat} (hchild : child < a.size)
    (hparent : (child - 1) / 2 = pos) (hpos : 0 < child)
    (hgreater : ∀ i (_ : i < a.size), 0 < i → (i - 1) / 2 = pos → i ≠ child → le a[i] a[child] = true) :
    OrderedBut le (a.swap pos child) child := by
  refine ⟨?_, ?_⟩
  · intro i hi hi' hne hne'
    rw [Array.size_swap] at hi
    have h₁ := h.others i hi hi'
    have h₂ := h.grand child hchild
    have h₃ := hgreater i hi hi'
    grind
  · intro i hi hc hi' hgrand
    rw [Array.size_swap] at hi
    have h₁ := h.others i hi hi'
    grind

/-- Sinking ends at a position without children. -/
theorem orderedBut_sinkToBottom (hle : TotalOn le P) (hP : ∀ i (_ : i < a.size), P a[i])
    (hlt : pos < a.size) (h : OrderedBut le a pos) :
    OrderedBut le (sinkToBottom le a pos).1 (sinkToBottom le a pos).2 ∧
      (sinkToBottom le a pos).2 < (sinkToBottom le a pos).1.size ∧
      (sinkToBottom le a pos).1.size ≤ 2 * (sinkToBottom le a pos).2 + 1 ∧
      ∀ i (_ : i < (sinkToBottom le a pos).1.size), P (sinkToBottom le a pos).1[i] := by
  fun_induction sinkToBottom le a pos with
  | case1 a pos hlt' hle' ih =>
    apply ih (swap_all hP hlt hlt') (by simp; omega)
    apply h.down hlt' (by omega) (by omega)
    intro i hi hi' hchild hne
    have : i = 2 * pos + 1 := by omega
    subst this
    exact hle'
  | case2 a pos hlt' hle' ih =>
    apply ih (swap_all hP hlt _) (by simp; omega)
    apply h.down (by omega) (by omega) (by omega)
    intro i hi hi' hchild hne
    have : i = 2 * pos + 2 := by omega
    subst this
    exact (hle.total _ _ (hP _ _) (hP _ _)).resolve_left hle'
  | case3 a pos hlt₁ hlt₂ =>
    -- the left child is the only one, so it needs no comparison
    have hone : ∀ i (_ : i < a.size), 0 < i → (i - 1) / 2 = pos → i ≠ 2 * pos + 1 →
        le a[i] a[2 * pos + 1] = true := by
      intro i hi hi' hchild hne
      omega
    refine ⟨h.down hlt₂ (by omega) (by omega) hone, ?_, ?_, swap_all hP hlt hlt₂⟩
    · rwa [Array.size_swap]
    · show (a.swap pos (2 * pos + 1)).size ≤ _
      rw [Array.size_swap]
      omega
  | case4 a pos hlt₁ hlt₂ =>
    refine ⟨h, hlt, ?_, hP⟩
    show a.size ≤ 2 * pos + 1
    omega

theorem ordered_siftDownToBottom (hle : TotalOn le P) (hP : ∀ i (_ : i < a.size), P a[i])
    (hlt : 0 < a.size) (h : OrderedBut le a 0) : Ordered le (siftDownToBottom le a 0) := by
  obtain ⟨hbut, hlt', hbottom, hP'⟩ := orderedBut_sinkToBottom hle hP hlt h
  apply ordered_siftUp hle hP' hlt' hbut
  intro i hi hi' hchild
  omega

theorem Ordered.push (hle : TotalOn le P) (hP : ∀ i (_ : i < a.size), P a[i]) (h : Ordered le a)
    {x : α} (hx : P x) : Ordered le (push le x a) := by
  apply ordered_siftUp hle
  · intro i hi
    rw [Array.getElem_push]
    split
    · exact hP i _
    · exact hx
  · simp
  · refine ⟨?_, ?_⟩
    · intro i hi hi' hne _
      have hi : i < a.size := by simp at hi; omega
      rw [Array.getElem_push_lt hi, Array.getElem_push_lt (by omega)]
      exact h i hi hi'
    · intro i hi _ hi' hchild
      simp at hi
      omega
  · intro i hi hi' hchild
    simp at hi
    omega

theorem Ordered.pop (hle : TotalOn le P) (hP : ∀ i (_ : i < a.size), P a[i]) (h : Ordered le a) {x : α}
    {b : Array α} (hpop : pop le a = some (x, b)) : Ordered le b := by
  unfold BinaryHeap.pop at hpop
  split at hpop
  · cases hpop
  · rename_i last hlast
    split at hpop
    · rename_i hsize
      cases hpop
      apply ordered_siftDownToBottom hle
      · intro i hi
        rw [Array.getElem_set]
        split
        · obtain ⟨j, hj, rfl⟩ := Array.mem_iff_getElem.mp (Array.mem_of_back? hlast)
          exact hP j hj
        · rw [Array.getElem_pop]
          exact hP i _
      · simpa using hsize
      · refine ⟨?_, ?_⟩
        · intro i hi hi' hne hne'
          simp at hi
          have hlast : i < a.pop.size := by simpa using hi
          have hparent : (i - 1) / 2 < a.pop.size := by omega
          rw [Array.getElem_set_ne hsize hlast hne.symm, Array.getElem_set_ne hsize hparent hne'.symm,
            Array.getElem_pop, Array.getElem_pop]
          exact h i (by omega) hi'
        · intro i hi hpos
          omega
    · rename_i hsize
      cases hpop
      intro i hi
      omega

/-- The root is a greatest element. -/
theorem Ordered.le_root (hle : TotalOn le P) (hP : ∀ i (_ : i < a.size), P a[i]) (h : Ordered le a)
    (i : Nat) (hi : i < a.size) : le a[i] a[0] = true := by
  induction i using Nat.strongRecOn with
  | ind i ih =>
    rcases Nat.eq_zero_or_pos i with rfl | hpos
    · exact (hle.total _ _ (hP 0 hi) (hP 0 hi)).elim id id
    · exact hle.trans _ _ _ (hP i hi) (hP _ _) (hP 0 _) (h i hi hpos) (ih ((i - 1) / 2) (by omega) _)

theorem Ordered.le_peek (hle : TotalOn le P) (hP : ∀ i (_ : i < a.size), P a[i]) (h : Ordered le a) {x y : α}
    (hx : peek a = some x) (hy : y ∈ a) : le y x = true := by
  obtain ⟨i, hi, rfl⟩ := Array.mem_iff_getElem.mp hy
  obtain ⟨hlt, rfl⟩ := Array.getElem?_eq_some_iff.mp hx
  exact h.le_root hle hP i hi

end BinaryHeap
