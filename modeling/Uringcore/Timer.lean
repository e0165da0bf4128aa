import Mathlib.Order.Defs.Unbundled
import Uringcore.Lib.BinaryHeap

/-!
# The timer heap

Entries of a handle and an expiration, the earliest on top. Expirations are `f64` in the source;
here they are any type with a decidable `≤`, which is all the code asks of them: `partial_cmp` is
`none` for two values neither of which is below the other (a NaN), and the order on entries then
calls them equal.
-/

namespace Uringcore

structure TimerEntry (T H : Type) where
  expiration : T
  handle : H
  deriving DecidableEq, Repr

/-- `f64::partial_cmp`. -/
def partialCmp {T : Type} [LE T] [DecidableLE T] (a b : T) : Option Ordering :=
  match decide (a ≤ b), decide (b ≤ a) with
  | true, true => some .eq
  | true, false => some .lt
  | false, true => some .gt
  | false, false => none

namespace TimerEntry
variable {T H : Type} [LE T] [DecidableLE T]

/-- `cmp`, reversed so that the smallest expiration is the greatest entry. -/
def cmp (self other : TimerEntry T H) : Ordering :=
  (partialCmp other.expiration self.expiration).getD .eq

/-- `<=` as derived from `partial_cmp`. -/
def le (self other : TimerEntry T H) : Bool := (self.cmp other).isLE

end TimerEntry

abbrev TimerHeap (T H : Type) := Array (TimerEntry T H)

namespace TimerHeap
variable {T H : Type} [LE T] [DecidableLE T]

def push (expiration : T) (handle : H) (heap : TimerHeap T H) : TimerHeap T H :=
  BinaryHeap.push TimerEntry.le ⟨expiration, handle⟩ heap

/-- The `while let` loop of `pop_expired`, run at most `n` times. Each turn pops an entry. -/
def popLoop (now : T) : Nat → TimerHeap T H → TimerHeap T H × List H
  | 0, heap => (heap, [])
  | n + 1, heap => match BinaryHeap.peek heap with
    | none => (heap, [])
    | some top =>
        if top.expiration ≤ now then
          match BinaryHeap.pop TimerEntry.le heap with
          | none => (heap, [])
          | some (entry, rest) =>
              let r := popLoop now n rest
              (r.1, entry.handle :: r.2)
        else (heap, [])

/-- `pop_expired`: as long as the top has expired it is popped. -/
def popExpired (now : T) (heap : TimerHeap T H) : TimerHeap T H × List H :=
  popLoop now heap.size heap

def nextExpiration (heap : TimerHeap T H) : Option T := (BinaryHeap.peek heap).map (·.expiration)

/-- The handles in the heap, in no particular order. -/
def handles (heap : TimerHeap T H) : List H := heap.toList.map (·.handle)

theorem push_handles (expiration : T) (handle : H) (heap : TimerHeap T H) :
    (heap.push expiration handle).handles.Perm (handle :: heap.handles) :=
  (BinaryHeap.push_perm _ _ heap).map _

theorem popLoop_handles (now : T) (n : Nat) (heap : TimerHeap T H) :
    heap.handles.Perm ((heap.popLoop now n).2 ++ (heap.popLoop now n).1.handles) := by
  induction n generalizing heap with
  | zero => exact List.Perm.refl _
  | succ n ih =>
    unfold popLoop
    split
    · exact List.Perm.refl _
    · split
      · split
        · exact List.Perm.refl _
        · rename_i entry rest hpop
          have hperm : heap.handles.Perm (entry.handle :: handles rest) :=
            ((BinaryHeap.pop_perm _ hpop).2).map _
          exact hperm.trans ((ih rest).cons _)
      · exact List.Perm.refl _

/-- What `popExpired` returns and what it leaves are together what the heap held. -/
theorem popExpired_handles (now : T) (heap : TimerHeap T H) :
    heap.handles.Perm ((heap.popExpired now).2 ++ (heap.popExpired now).1.handles) :=
  popLoop_handles now _ heap

end TimerHeap

end Uringcore
