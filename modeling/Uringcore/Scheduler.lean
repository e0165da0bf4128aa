import Mathlib.Data.List.Basic

/-!
# The ready queue

A queue of handles behind one lock. `drain` swaps the whole queue for an empty one, so what is
pushed while a drained batch runs goes to the new queue.
-/

namespace Uringcore

abbrev Scheduler (H : Type) := List H

namespace Scheduler
variable {H : Type}

def push (handle : H) (queue : Scheduler H) : Scheduler H := queue ++ [handle]

def drain (queue : Scheduler H) : Scheduler H × List H := ([], queue)

/-- Pushing handles one by one appends them in order. -/
theorem foldl_push (handles : List H) (queue : Scheduler H) :
    handles.foldl (fun q h => push h q) queue = queue ++ handles := by
  induction handles generalizing queue with
  | nil => exact (List.append_nil queue).symm
  | cons h handles ih =>
    rw [List.foldl_cons, ih, push, List.append_assoc]
    rfl

end Scheduler

end Uringcore
