import Mathlib.Algebra.Order.Floor.Ring
import Mathlib.Data.Rat.Floor
import Mathlib.Tactic.Linarith
import Uringcore.Core.Execution

/-!
# How long the loops sleep

Both loops sleep until the first timer expires: `run_until_stopped` in Rust, in whole milliseconds,
and `_run_once` in Python, at most 10 ms at a time (`_calculate_timeout`). Expirations are readings of
the monotonic clock, since `call_later` takes that one and `run_tick` compares with it. The Python
loop subtracts a reading of the same clock; the Rust loop subtracts the wall clock.

Times are exact rational numbers of seconds. What the Rust loop passes to `epoll_wait` is right
(`SleepsUntil`) exactly when the two clocks happen to put the expiration equally far away, as far as
the loops can tell (`ClocksAgree`).
-/

namespace Uringcore

/-- `as i32` of an `f64`: the fraction is dropped, and the bounds hold what is beyond them. -/
def asI32 (x : ℚ) : Int := max (-2 ^ 31) (min (2 ^ 31 - 1) (x.num.tdiv x.den))

theorem asI32_of_nonneg {x : ℚ} (h : 0 ≤ x) : asI32 x = min ⌊x⌋ (2 ^ 31 - 1) := by
  have hfloor : x.num.tdiv x.den = ⌊x⌋ := by
    rw [Int.tdiv_eq_ediv_of_nonneg (Rat.num_nonneg.mpr h)]
    exact Rat.floor_def'.symm
  have hnonneg : 0 ≤ ⌊x⌋ := Int.floor_nonneg.mpr h
  rw [asI32, hfloor]
  omega

namespace UringCore
variable {F H : Type}

/-- The timeout of `epoll_wait` in `run_until_stopped`, in milliseconds, when the wall clock shows
`wall` seconds since the epoch. `none`: `duration_since(UNIX_EPOCH)` fails, and the `unwrap` panics. -/
def epollTimeout (wall : ℚ) (core : UringCore F H ℚ) : Option Int :=
  if core.scheduler ≠ [] then some 0
  else match core.timers.nextExpiration with
    | some nextExp =>
        if wall < 0 then none
        else
          let delay := max (nextExp - wall) 0
          some (asI32 (delay * 1000))
    | none => some 100

/-- `_calculate_timeout`, in seconds; `now` is `time.monotonic()`. -/
def calculateTimeout (stopping : Bool) (now : ℚ) (core : UringCore F H ℚ) : ℚ :=
  if stopping then 0
  else if core.scheduler ≠ [] then 0
  else match core.timers.nextExpiration with
    | some nextTime => min (max 0 (nextTime - now)) (1 / 100)
    | none => 1 / 100

/-- A `run_tick` at the time `clock` finds an expired timer. -/
def FindsExpired (clock : ℚ) (core : UringCore F H ℚ) : Prop :=
  (core.expireTimers clock).scheduler ≠ core.scheduler

/-- What a timeout of `ms` milliseconds should be at the time `now` of the monotonic clock: not
negative, over before a `run_tick` would find a timer, positive when that is a millisecond away, and
the timeout of the Python loop, up to a millisecond and its cap of 10. -/
structure SleepsUntil (now : ℚ) (core : UringCore F H ℚ) (ms : Int) : Prop where
  nonneg : 0 ≤ ms
  notPast : ∀ t, now ≤ t → core.FindsExpired t → now + ms / 1000 ≤ t
  positive : (∀ t, core.FindsExpired t → now + 1 / 1000 ≤ t) → 0 < ms
  agrees : |min ((ms : ℚ) / 1000) (1 / 100) - core.calculateTimeout false now| < 1 / 1000

/-- The whole milliseconds that are left of a delay. -/
def wholeMs (delay : ℚ) : Int := ⌊max 0 delay * 1000⌋

/-- The clocks put the expiration the same number of whole milliseconds away, or both put it at least
10 of them away and the wall clock, as far as an `i32` goes, no farther than the monotonic one. -/
def ClocksAgree (nextExp wall monotonic : ℚ) : Prop :=
  0 ≤ wall ∧ (wholeMs (nextExp - wall) = wholeMs (nextExp - monotonic) ∨
    10 ≤ wholeMs (nextExp - wall) ∧ 10 ≤ wholeMs (nextExp - monotonic) ∧
      min (wholeMs (nextExp - wall)) (2 ^ 31 - 1) ≤ wholeMs (nextExp - monotonic))

/-! ## The moment -/

section
variable {core : UringCore F H ℚ} {nextExp : ℚ}

/-- The loop of `pop_expired` stops at the top, or has popped it. -/
theorem popExpired_eq_nil_iff {heap : TimerHeap ℚ H} (hnext : heap.nextExpiration = some nextExp)
    (clock : ℚ) : (heap.popExpired clock).2 = [] ↔ ¬ nextExp ≤ clock := by
  obtain ⟨top, htop, rfl⟩ := Option.map_eq_some_iff.mp hnext
  obtain ⟨rest, hpop⟩ := BinaryHeap.pop_of_peek TimerEntry.le htop
  obtain ⟨n, hn⟩ : ∃ n, heap.size = n + 1 :=
    Nat.exists_eq_succ_of_ne_zero (Nat.pos_iff_ne_zero.mp
      (Nat.lt_of_le_of_lt (Nat.zero_le _) (BinaryHeap.size_lt_of_pop _ hpop)))
  rw [TimerHeap.popExpired, hn, TimerHeap.popLoop, htop]
  dsimp only
  by_cases hdue : top.expiration ≤ clock
  · rw [if_pos hdue, hpop]
    simp [hdue]
  · rw [if_neg hdue]
    simp [hdue]

/-- From the first expiration on, and not before, a `run_tick` finds a timer. -/
theorem findsExpired_iff (hnext : core.timers.nextExpiration = some nextExp) (clock : ℚ) :
    core.FindsExpired clock ↔ nextExp ≤ clock := by
  have hqueue : (core.expireTimers clock).scheduler =
      core.scheduler ++ (core.timers.popExpired clock).2 :=
    Scheduler.foldl_push _ _
  rw [FindsExpired, hqueue, Ne, List.append_right_eq_self, popExpired_eq_nil_iff hnext, not_not]

/-! ## Whole milliseconds -/

theorem wholeMs_nonneg (delay : ℚ) : 0 ≤ wholeMs delay := by
  apply Int.floor_nonneg.mpr
  have := le_max_left 0 delay
  positivity

/-- Not more than `x`, and less than one away from it below 10: the floor, or anything from 10 up to
the floor. -/
theorem floor_or_ten_iff {x : ℚ} {n : Int} :
    ((n : ℚ) ≤ x ∧ |min (n : ℚ) 10 - min x 10| < 1) ↔ n = ⌊x⌋ ∨ 10 ≤ n ∧ n ≤ ⌊x⌋ := by
  constructor
  · rintro ⟨hle, hnear⟩
    have hfloor : n ≤ ⌊x⌋ := Int.le_floor.mpr hle
    by_cases hten : 10 ≤ n
    · exact .inr ⟨hten, hfloor⟩
    · left
      have hn : (n : ℚ) + 1 ≤ 10 := by exact_mod_cast (by omega : n + 1 ≤ 10)
      rw [min_eq_left (by linarith), abs_lt] at hnear
      -- `x` cannot be at the cap, which is a whole one away
      have hx : x < n + 1 := by
        rcases min_choice x 10 with hmin | hmin <;> rw [hmin] at hnear <;> linarith
      exact ((Int.floor_eq_iff).mpr ⟨hle, hx⟩).symm
  · rintro (rfl | ⟨hten, hle⟩)
    · have hlow := Int.floor_le x
      have hhigh := Int.lt_floor_add_one x
      refine ⟨hlow, ?_⟩
      rw [abs_lt]
      rcases le_total x 10 with hx | hx
      · rw [min_eq_left hx, min_eq_left (hlow.trans hx)]
        constructor <;> linarith
      · have hfloor : (10 : ℚ) ≤ ⌊x⌋ := by
          exact_mod_cast Int.le_floor.mpr (by exact_mod_cast hx)
        rw [min_eq_right hx, min_eq_right hfloor]
        constructor <;> linarith
    · have hx : (n : ℚ) ≤ x := Int.le_floor.mp hle
      have hn : (10 : ℚ) ≤ n := by exact_mod_cast hten
      refine ⟨hx, ?_⟩
      rw [min_eq_right hn, min_eq_right (hn.trans hx)]
      norm_num

/-! ## The timeout -/

/-- A sleep ends in time for every `run_tick` that finds the timer if it is no longer than the delay. -/
theorem notPast_iff (hnext : core.timers.nextExpiration = some nextExp) (now : ℚ) (ms : Int) :
    (∀ t, now ≤ t → core.FindsExpired t → now + ms / 1000 ≤ t) ↔
      (ms : ℚ) ≤ max 0 (nextExp - now) * 1000 := by
  constructor
  · intro h
    have hmax := h (max now nextExp) (le_max_left _ _)
      ((findsExpired_iff hnext _).mpr (le_max_right _ _))
    rcases le_total now nextExp with hle | hle
    · rw [max_eq_right hle] at hmax
      rw [max_eq_right (by linarith)]
      linarith
    · rw [max_eq_left hle] at hmax
      rw [max_eq_left (by linarith)]
      linarith
  · intro h t ht hfinds
    have hdue := (findsExpired_iff hnext t).mp hfinds
    have hdelay : max 0 (nextExp - now) ≤ t - now := max_le (by linarith) (by linarith)
    linarith

/-- Both sides of a comparison in seconds are a thousandth of those in milliseconds. -/
theorem agrees_iff (ms : Int) (delay : ℚ) :
    |min ((ms : ℚ) / 1000) (1 / 100) - min delay (1 / 100)| < 1 / 1000 ↔
      |min (ms : ℚ) 10 - min (delay * 1000) 10| < 1 := by
  have hthousand : (0 : ℚ) ≤ 1000 := by norm_num
  have hms : min ((ms : ℚ) / 1000) (1 / 100) = min (ms : ℚ) 10 / 1000 := by
    rw [← min_div_div_right hthousand]
    norm_num
  have hdelay : min delay (1 / 100) = min (delay * 1000) 10 / 1000 := by
    rw [← min_div_div_right hthousand]
    norm_num
  rw [hms, hdelay, ← sub_div, abs_div, abs_of_pos (by norm_num : (0 : ℚ) < 1000),
    div_lt_div_iff_of_pos_right (by norm_num)]

/-- What is asked of a timeout, in milliseconds of the monotonic clock. -/
theorem sleepsUntil_iff (hready : core.scheduler = [])
    (hnext : core.timers.nextExpiration = some nextExp) (now : ℚ) {ms : Int} (hms : 0 ≤ ms) :
    SleepsUntil now core ms ↔
      ms = wholeMs (nextExp - now) ∨ 10 ≤ ms ∧ ms ≤ wholeMs (nextExp - now) := by
  have hcalculate : core.calculateTimeout false now = min (max 0 (nextExp - now)) (1 / 100) := by
    simp [calculateTimeout, hready, hnext]
  constructor
  · intro h
    have hagrees := h.agrees
    rw [hcalculate, agrees_iff] at hagrees
    exact floor_or_ten_iff.mp ⟨(notPast_iff hnext now ms).mp h.notPast, hagrees⟩
  · intro h
    obtain ⟨hle, hagrees⟩ := floor_or_ten_iff.mpr h
    refine ⟨hms, (notPast_iff hnext now ms).mpr hle, fun haway => ?_, ?_⟩
    · -- a millisecond away is at least one whole millisecond
      have hnextExp := haway nextExp ((findsExpired_iff hnext _).mpr le_rfl)
      have hone : 1 ≤ wholeMs (nextExp - now) := by
        apply Int.le_floor.mpr
        rw [max_eq_right (by linarith)]
        push_cast
        linarith
      omega
    · rw [hcalculate, agrees_iff]
      exact hagrees

/-- **The timeout.** With nothing ready and a timer pending, what `run_until_stopped` passes to
`epoll_wait` is right for a reading of the monotonic clock if and only if its reading of the wall
clock agrees with that one. -/
theorem epollTimeout_iff (hready : core.scheduler = [])
    (hnext : core.timers.nextExpiration = some nextExp) (wall monotonic : ℚ) :
    (∃ ms, core.epollTimeout wall = some ms ∧ SleepsUntil monotonic core ms) ↔
      ClocksAgree nextExp wall monotonic := by
  by_cases hwall : wall < 0
  · have hpanics : core.epollTimeout wall = none := by
      simp [epollTimeout, hready, hnext, hwall]
    rw [hpanics]
    refine iff_of_false (by simp) ?_
    rintro ⟨hepoch, -⟩
    exact absurd hwall (not_lt.mpr hepoch)
  · have hdelay : max (nextExp - wall) 0 * 1000 = max 0 (nextExp - wall) * 1000 := by
      rw [max_comm]
    have htimeout : core.epollTimeout wall =
        some (min (wholeMs (nextExp - wall)) (2 ^ 31 - 1)) := by
      have hpos : 0 ≤ max 0 (nextExp - wall) * 1000 :=
        mul_nonneg (le_max_left _ _) (by norm_num)
      simp only [epollTimeout, hready, ne_eq, not_true_eq_false, if_false, hnext, hwall]
      rw [hdelay, asI32_of_nonneg hpos]
      rfl
    have hms := wholeMs_nonneg (nextExp - wall)
    have hsleeps := sleepsUntil_iff hready hnext monotonic
      (show 0 ≤ min (wholeMs (nextExp - wall)) (2 ^ 31 - 1) by omega)
    have hepoch : 0 ≤ wall := not_lt.mp hwall
    rw [htimeout, ClocksAgree]
    constructor
    · rintro ⟨ms, hsome, hright⟩
      cases hsome
      refine ⟨hepoch, ?_⟩
      have hcases := hsleeps.mp hright
      omega
    · rintro ⟨-, hclocks⟩
      refine ⟨_, rfl, hsleeps.mpr ?_⟩
      omega

/-- The first timer that is pushed is the next to expire. -/
theorem nextExpiration_pushTimer (hempty : core.timers = #[]) (handle : H) :
    (core.pushTimer nextExp handle).timers.nextExpiration = some nextExp := by
  show (TimerHeap.push nextExp handle core.timers).nextExpiration = some nextExp
  rw [hempty, TimerHeap.push, BinaryHeap.push, BinaryHeap.siftUp]
  rfl

/-- A delay that is over is no timeout. -/
theorem epollTimeout_of_le {wall : ℚ} (hready : core.scheduler = [])
    (hnext : core.timers.nextExpiration = some nextExp) (hwall : 0 ≤ wall) (hle : nextExp ≤ wall) :
    core.epollTimeout wall = some 0 := by
  have hover : max (nextExp - wall) 0 = 0 := max_eq_right (by linarith)
  simp only [epollTimeout, hready, ne_eq, not_true_eq_false, if_false, hnext, not_lt.mpr hwall, hover]
  rw [zero_mul, asI32_of_nonneg le_rfl, Int.floor_zero]
  rfl

/-- One timer, due at 5: both clocks show 4. -/
theorem epollTimeout_one_clock :
    ∃ core : UringCore Nat Nat ℚ, UringCore.new Setup.plain 16 2 = .ok core ∧
      ((∃ ms, (core.pushTimer 5 0).epollTimeout 4 = some ms ∧
        SleepsUntil 4 (core.pushTimer 5 0) ms) ↔ ClocksAgree 5 4 4) :=
  ⟨_, rfl, epollTimeout_iff rfl (nextExpiration_pushTimer rfl 0) 4 4⟩

/-- The same timer, a second away, while the wall clock shows a day in 2023: the loop does not sleep
at all. -/
theorem epollTimeout_spins :
    ∃ core : UringCore Nat Nat ℚ, UringCore.new Setup.plain 16 2 = .ok core ∧
      (core.pushTimer 5 0).scheduler = [] ∧ (core.pushTimer 5 0).timers.nextExpiration = some 5 ∧
      (core.pushTimer 5 0).epollTimeout 1700000000 = some 0 ∧
      ¬ ∃ ms, (core.pushTimer 5 0).epollTimeout 1700000000 = some ms ∧
        SleepsUntil 4 (core.pushTimer 5 0) ms := by
  have hnext (core : UringCore Nat Nat ℚ) (hempty : core.timers = #[]) :
      (core.pushTimer 5 0).timers.nextExpiration = some 5 := nextExpiration_pushTimer hempty 0
  have htimeout (core : UringCore Nat Nat ℚ) (hready : core.scheduler = [])
      (hempty : core.timers = #[]) : (core.pushTimer 5 0).epollTimeout 1700000000 = some 0 :=
    epollTimeout_of_le hready (hnext core hempty) (by norm_num) (by norm_num)
  refine ⟨_, rfl, rfl, hnext _ rfl, htimeout _ rfl rfl, ?_⟩
  rintro ⟨ms, hms, hright⟩
  rw [htimeout _ rfl rfl] at hms
  cases hms
  refine absurd (hright.positive fun t hfinds => ?_) (by decide)
  have hdue := (findsExpired_iff (hnext _ rfl) t).mp hfinds
  linarith

end

end UringCore

end Uringcore
