import Mathlib.Data.List.Defs

/-!
# Histories

A history is a list that grows at its end: an entry keeps the number it was given.

* `getElem?_mono`, `getElem?_append_of_some` — an entry is still there later.
* `append_cases`, `concat_eq_some`, `forall_append` — an entry of a longer history is an earlier one,
  with its number, or one of the new entries, numbered from the length on.
-/

namespace History
variable {α : Type*} {past later new : List α} {n : Nat} {a b : α}

theorem getElem?_append_of_some (h : past[n]? = some a) (new : List α) :
    (past ++ new)[n]? = some a := by
  rw [List.getElem?_append_left (List.getElem?_eq_some_iff.mp h).1]
  exact h

theorem getElem?_mono (h : past[n]? = some a) (hpre : past <+: later) :
    later[n]? = some a := by
  obtain ⟨new, rfl⟩ := hpre
  exact getElem?_append_of_some h new

theorem append_cases (h : (past ++ new)[n]? = some a) :
    past[n]? = some a ∨ past.length ≤ n ∧ a ∈ new := by
  rcases Nat.lt_or_ge n past.length with hlt | hge
  · rw [List.getElem?_append_left hlt] at h
    exact .inl h
  · rw [List.getElem?_append_right hge] at h
    exact .inr ⟨hge, List.mem_of_getElem? h⟩

/-- One new entry has the length as its number. -/
theorem concat_eq_some :
    (past ++ [b])[n]? = some a ↔ past[n]? = some a ∨ n = past.length ∧ a = b := by
  constructor
  · intro h
    obtain hold | ⟨hge, hmem⟩ := append_cases h
    · exact .inl hold
    · have hlt := (List.getElem?_eq_some_iff.mp h).1
      rw [List.length_append, List.length_singleton] at hlt
      exact .inr ⟨by omega, List.mem_singleton.mp hmem⟩
  · rintro (hold | ⟨rfl, rfl⟩)
    · exact getElem?_append_of_some hold _
    · exact List.getElem?_concat_length

theorem forall_append {P : Nat → α → Prop} (past new : List α) :
    (∀ n a, (past ++ new)[n]? = some a → P n a) ↔
      (∀ n a, past[n]? = some a → P n a) ∧ ∀ i a, new[i]? = some a → P (past.length + i) a := by
  constructor
  · intro h
    refine ⟨fun n a ha => h n a (getElem?_append_of_some ha new), fun i a ha => h (past.length + i) a ?_⟩
    rw [List.getElem?_append_right (Nat.le_add_right _ _), Nat.add_sub_cancel_left]
    exact ha
  · rintro ⟨hpast, hnew⟩ n a ha
    by_cases hlt : n < past.length
    · rw [List.getElem?_append_left hlt] at ha
      exact hpast n a ha
    · rw [List.getElem?_append_right (Nat.not_lt.mp hlt)] at ha
      have hlast := hnew (n - past.length) a ha
      rwa [Nat.add_sub_cancel' (Nat.not_lt.mp hlt)] at hlast

end History
