import Mathlib.Logic.Function.Basic
import Uringcore.Lib.History

/-!
# Circular arrays

A sequence written round and round into an array of `n` slots, element `p` into slot `p % n`.
`Recent` says that the array still holds the last `n` elements.

* `Recent.push`, `Recent.pushAll` — writing one more element, or several, in the order of their
  positions.
-/

namespace Circular
variable {α : Type*} {n : Nat} {slots : Nat → α} {written : List α}

/-- The last `n` of the elements written are where they were written. -/
def Recent (n : Nat) (slots : Nat → α) (written : List α) : Prop :=
  ∀ p a, written[p]? = some a → written.length ≤ p + n → slots (p % n) = a

theorem Recent.nil : Recent n slots ([] : List α) := nofun

/-- Two positions less than a lap apart have different slots. -/
theorem slot_ne {p q : Nat} (hlt : p < q) (hlap : q < p + n) : p % n ≠ q % n := by
  intro heq
  have h0 : (q - p) % n = 0 := Nat.sub_mod_eq_zero_of_mod_eq heq.symm
  rw [Nat.mod_eq_of_lt (by omega)] at h0
  omega

theorem Recent.push (h : Recent n slots written) (a : α) :
    Recent n (Function.update slots (written.length % n) a) (written ++ [a]) := by
  intro p b hp hlen
  rw [List.length_append, List.length_singleton] at hlen
  obtain hold | ⟨rfl, rfl⟩ := History.concat_eq_some.mp hp
  · have hlt := (List.getElem?_eq_some_iff.mp hold).1
    rw [Function.update_of_ne (slot_ne hlt (by omega))]
    exact h p b hold (by omega)
  · exact Function.update_self ..

/-- `count` elements are written one after another. -/
theorem Recent.pushAll (h : Recent n slots written) (element : Nat → α) (count : Nat) :
    Recent n
      ((List.range count).foldl
        (fun slots i => Function.update slots ((written.length + i) % n) (element i)) slots)
      (written ++ (List.range count).map element) := by
  induction count with
  | zero =>
    rw [List.range_zero, List.foldl_nil, List.map_nil, List.append_nil]
    exact h
  | succ count ih =>
    have hnext := ih.push (element count)
    rw [List.length_append, List.length_map, List.length_range] at hnext
    rw [List.range_succ, List.foldl_append, List.map_append, ← List.append_assoc]
    exact hnext

end Circular
