import Mathlib.Algebra.GroupWithZero.Nat
import Mathlib.Logic.Function.Basic

/-!
# Memory by bytes

A `ByteMemory` gives the byte at each address. `load` reads a little-endian number of some width,
`store` writes one. What was stored is loaded again (`load_store`), and a load does not see a store
that it does not overlap (`load_store_of_disjoint`).
-/

abbrev ByteMemory := Nat → UInt8

namespace ByteMemory

/-- The little-endian number in the `n` bytes from `a` on. -/
def load (a : Nat) : Nat → ByteMemory → Nat
  | 0, _ => 0
  | n + 1, m => (m a).toNat + 256 * load (a + 1) n m

/-- Write `v` as a little-endian number to the `n` bytes from `a` on. -/
def store (a : Nat) : Nat → Nat → ByteMemory → ByteMemory
  | 0, _, m => m
  | n + 1, v, m => store (a + 1) n (v / 256) (Function.update m a (UInt8.ofNat v))

@[simp] theorem load_zero (a n : Nat) : load a n (fun _ => 0) = 0 := by
  induction n generalizing a with
  | zero => rfl
  | succ n ih =>
    rw [load, ih]
    rfl

theorem store_of_lt {a n v i : Nat} (m : ByteMemory) (h : i < a) : store a n v m i = m i := by
  induction n generalizing a v m with
  | zero => rfl
  | succ n ih =>
    rw [store, ih _ (Nat.lt_succ_of_lt h)]
    exact Function.update_of_ne (Nat.ne_of_lt h) _ _

/-- A store changes its own bytes only. -/
theorem store_of_le {a n v i : Nat} (m : ByteMemory) (h : a + n ≤ i) : store a n v m i = m i := by
  induction n generalizing a v m with
  | zero => rfl
  | succ n ih =>
    rw [store, ih _ (by omega)]
    exact Function.update_of_ne (by omega) _ _

/-- A load depends on its own bytes only. -/
theorem load_congr {a n : Nat} {m m' : ByteMemory} (h : ∀ i, a ≤ i → i < a + n → m i = m' i) :
    load a n m = load a n m' := by
  induction n generalizing a with
  | zero => rfl
  | succ n ih =>
    rw [load, load, h a (Nat.le_refl a) (by omega), ih fun i hi hlt => h i (by omega) (by omega)]

/-- What was stored is loaded, as far as it fits. -/
theorem load_store (a n v : Nat) (m : ByteMemory) : load a n (store a n v m) = v % 256 ^ n := by
  induction n generalizing a v m with
  | zero => rw [load, Nat.pow_zero, Nat.mod_one]
  | succ n ih =>
    have hbyte : (store (a + 1) n (v / 256) (Function.update m a (UInt8.ofNat v)) a).toNat =
        v % 256 := by
      rw [store_of_lt _ (Nat.lt_succ_self a), Function.update_self]
      exact UInt8.toNat_ofNat'
    rw [store, load, ih, hbyte, Nat.pow_succ', Nat.mod_mul]

/-- What fits is loaded as it was stored. -/
theorem load_store_of_lt {a n v : Nat} (m : ByteMemory) (h : v < 256 ^ n) :
    load a n (store a n v m) = v := by
  rw [load_store, Nat.mod_eq_of_lt h]

theorem load_store_of_disjoint {a n b k : Nat} (v : Nat) (m : ByteMemory)
    (h : b + k ≤ a ∨ a + n ≤ b) : load b k (store a n v m) = load b k m := by
  apply load_congr
  intro i hi hlt
  rcases h with h | h
  · exact store_of_lt m (by omega)
  · exact store_of_le m (by omega)

end ByteMemory
