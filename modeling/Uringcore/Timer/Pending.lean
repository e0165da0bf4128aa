import Uringcore.Lib.History
import Uringcore.Lib.Machine
import Uringcore.Timer

/-!
# What the timer heap returns and what it keeps

Seen from outside the heap is a list of entries: `pending` reads off the calls which of them no
`pop_expired` has come for yet. On expirations that are numbers the order on entries is total, so the
heap is in order and every `pop_expired` takes what is due, the earliest first (`TimerLaw`). A value
that is no number is incomparable; on the top of the heap it stays there, and hides what is below.
-/

namespace Uringcore

/-- The order of `f64`: the numbers are totally ordered, and what is no number is above and below
nothing, itself included. -/
class FloatOrder (T : Type) [LE T] : Prop where
  trans : ∀ {a b c : T}, a ≤ b → b ≤ c → a ≤ c
  total : ∀ {a b : T}, a ≤ a → b ≤ b → a ≤ b ∨ b ≤ a
  left : ∀ {a b : T}, a ≤ b → a ≤ a
  right : ∀ {a b : T}, a ≤ b → b ≤ b

/-- Numbers, and a value that is none. -/
inductive NanTime where
  | number (n : Int)
  | nan
  deriving DecidableEq, Repr

namespace NanTime

def le : NanTime → NanTime → Bool
  | number m, number n => m ≤ n
  | nan, _ | _, nan => false

instance : LE NanTime := ⟨fun a b => a.le b = true⟩

instance : DecidableLE NanTime := fun a b => inferInstanceAs (Decidable (a.le b = true))

theorem le_iff {a b : NanTime} : a ≤ b ↔ ∃ m n, a = number m ∧ b = number n ∧ m ≤ n := by
  show a.le b = true ↔ _
  cases a <;> cases b <;> simp [NanTime.le]

instance : FloatOrder NanTime where
  trans := by
    intro a b c hab hbc
    obtain ⟨m, n, rfl, rfl, hmn⟩ := le_iff.mp hab
    obtain ⟨n', k, hn, rfl, hnk⟩ := le_iff.mp hbc
    cases hn
    exact le_iff.mpr ⟨m, k, rfl, rfl, Int.le_trans hmn hnk⟩
  total := by
    intro a b ha hb
    obtain ⟨m, _, rfl, -, -⟩ := le_iff.mp ha
    obtain ⟨n, _, rfl, -, -⟩ := le_iff.mp hb
    rcases Int.le_total m n with h | h
    · exact .inl (le_iff.mpr ⟨m, n, rfl, rfl, h⟩)
    · exact .inr (le_iff.mpr ⟨n, m, rfl, rfl, h⟩)
  left := by
    intro a b h
    obtain ⟨m, _, rfl, -, -⟩ := le_iff.mp h
    exact le_iff.mpr ⟨m, m, rfl, rfl, Int.le_refl m⟩
  right := by
    intro a b h
    obtain ⟨_, n, -, rfl, -⟩ := le_iff.mp h
    exact le_iff.mpr ⟨n, n, rfl, rfl, Int.le_refl n⟩

end NanTime

/-- A call of the heap. -/
inductive TimerAct (T H : Type) where
  | push (expiration : T) (handle : H)
  | popExpired (now : T)
  deriving DecidableEq, Repr

/-- The heap, and what each `pop_expired` has returned. -/
structure Timers (T H : Type) where
  heap : TimerHeap T H
  returned : List (List H)

section
variable {T H : Type} [LE T] [DecidableLE T]

namespace Timers

def new : Timers T H := ⟨#[], []⟩

def step (s : Timers T H) : TimerAct T H → Option (Timers T H)
  | .push expiration handle => some { s with heap := s.heap.push expiration handle }
  | .popExpired now =>
      let r := s.heap.popExpired now
      some ⟨r.1, s.returned ++ [r.2]⟩

def machine : Machine (Timers T H) (TimerAct T H) := ⟨step⟩

end Timers

/-! ## What the calls ask for -/

namespace TimerAct

/-- What is pushed expires at a number. -/
def IsNumber : TimerAct T H → Prop
  | push expiration _ => expiration ≤ expiration
  | popExpired _ => True

instance : ∀ act : TimerAct T H, Decidable act.IsNumber
  | push expiration _ => inferInstanceAs (Decidable (expiration ≤ expiration))
  | popExpired _ => .isTrue trivial

def isPop : TimerAct T H → Bool
  | push .. => false
  | popExpired _ => true

def pushed? : TimerAct T H → Option H
  | push _ handle => some handle
  | popExpired _ => none

/-- The call comes when the entry has expired. -/
def takes (entry : TimerEntry T H) : TimerAct T H → Bool
  | push .. => false
  | popExpired now => entry.expiration ≤ now

end TimerAct

/-- The entries that were pushed and that no later `pop_expired` has come for. -/
def pending : List (TimerAct T H) → List (TimerEntry T H)
  | [] => []
  | .push expiration handle :: acts =>
      if acts.any (TimerAct.takes ⟨expiration, handle⟩) then pending acts
      else ⟨expiration, handle⟩ :: pending acts
  | .popExpired _ :: acts => pending acts

/-- What the heap has done with the calls. -/
structure TimerLaw (acts : List (TimerAct T H)) (s : Timers T H) : Prop where
  /-- A `pop_expired` returns what is due, in the order of the expirations. -/
  returned : ∀ before now after, acts = before ++ .popExpired now :: after →
    ∃ batch : List (TimerEntry T H),
      s.returned[before.countP TimerAct.isPop]? = some (batch.map (·.handle)) ∧
        batch.Pairwise (·.expiration ≤ ·.expiration) ∧
        batch.Perm ((pending before).filter (·.expiration ≤ now))
  /-- Everything that was pushed was returned once, or is in the heap. -/
  once : (acts.filterMap TimerAct.pushed?).Perm (s.returned.flatten ++ s.heap.handles)
  kept : s.heap.toList.Perm (pending acts)
  left : ∀ before now, acts = before ++ [.popExpired now] →
    s.heap.toList.Perm ((pending before).filter fun entry => ¬ entry.expiration ≤ now)
  next : ∀ t, s.heap.nextExpiration = some t →
    (∃ entry ∈ pending acts, entry.expiration = t) ∧ ∀ entry ∈ pending acts, t ≤ entry.expiration
  none : s.heap.nextExpiration = none ↔ pending acts = []

theorem pending_push (acts : List (TimerAct T H)) (expiration : T) (handle : H) :
    pending (acts ++ [.push expiration handle]) = pending acts ++ [⟨expiration, handle⟩] := by
  induction acts with
  | nil => rfl
  | cons act acts ih =>
    cases act with
    | push expiration' handle' =>
      simp only [List.cons_append, pending, List.any_append, List.any_cons, List.any_nil,
        TimerAct.takes, Bool.or_false, ih]
      split <;> rfl
    | popExpired now => exact ih

theorem pending_popExpired (acts : List (TimerAct T H)) (now : T) :
    pending (acts ++ [.popExpired now]) =
      (pending acts).filter fun entry => ¬ entry.expiration ≤ now := by
  induction acts with
  | nil => rfl
  | cons act acts ih =>
    cases act with
    | push expiration handle =>
      simp only [List.cons_append, pending, List.any_append, List.any_cons, List.any_nil,
        TimerAct.takes, Bool.or_false, ih]
      by_cases hany : acts.any (TimerAct.takes ⟨expiration, handle⟩) = true
      · simp [hany]
      · by_cases hdue : expiration ≤ now <;> simp [hany, hdue]
    | popExpired now' => exact ih

/-! ## A heap of numbers -/

namespace TimerEntry

/-- The expiration is a number. -/
def IsNumber (entry : TimerEntry T H) : Prop := entry.expiration ≤ entry.expiration

variable [FloatOrder T]

/-- The earlier of two entries is the greater. -/
theorem le_iff {entry other : TimerEntry T H} (h : entry.IsNumber) (h' : other.IsNumber) :
    entry.le other = true ↔ other.expiration ≤ entry.expiration := by
  have htotal := FloatOrder.total h h'
  unfold le cmp partialCmp
  by_cases hle : other.expiration ≤ entry.expiration <;>
    by_cases hge : entry.expiration ≤ other.expiration <;> simp [hle, hge, Ordering.isLE]
  exact htotal.elim hge hle

theorem totalOn : BinaryHeap.TotalOn (le : TimerEntry T H → TimerEntry T H → Bool) IsNumber where
  trans x y z hx hy hz hxy hyz := by
    rw [le_iff hx hy] at hxy
    rw [le_iff hy hz] at hyz
    rw [le_iff hx hz]
    exact FloatOrder.trans hyz hxy
  total x y hx hy := by
    rw [le_iff hx hy, le_iff hy hx]
    exact (FloatOrder.total hx hy).symm

end TimerEntry

namespace TimerHeap

/-- The heap is in order, and all of its expirations are numbers. -/
structure Sound (heap : TimerHeap T H) : Prop where
  ordered : BinaryHeap.Ordered TimerEntry.le heap
  numbers : ∀ entry ∈ heap, entry.IsNumber

/-- What a `pop_expired` returns and leaves. -/
structure Pops (now : T) (heap : TimerHeap T H) (r : TimerHeap T H × List H) : Prop where
  sound : Sound r.1
  left : r.1.toList.Perm (heap.toList.filter fun entry => ¬ entry.expiration ≤ now)
  batch : ∃ batch : List (TimerEntry T H), r.2 = batch.map (·.handle) ∧
    batch.Pairwise (·.expiration ≤ ·.expiration) ∧
    batch.Perm (heap.toList.filter (·.expiration ≤ now))

theorem Sound.numbers' {heap : TimerHeap T H} (h : Sound heap) (i : Nat) (hi : i < heap.size) :
    heap[i].IsNumber := h.numbers _ (Array.getElem_mem hi)

variable [FloatOrder T]

theorem Sound.push {heap : TimerHeap T H} (h : Sound heap) {expiration : T}
    (hnumber : expiration ≤ expiration) (handle : H) : Sound (heap.push expiration handle) where
  ordered := h.ordered.push TimerEntry.totalOn h.numbers' hnumber
  numbers entry hentry := by
    have hperm : (heap.push expiration handle).toList.Perm (⟨expiration, handle⟩ :: heap.toList) :=
      BinaryHeap.push_perm _ _ heap
    have hmem := hperm.mem_iff.mp (Array.mem_toList_iff.mpr hentry)
    rcases List.mem_cons.mp hmem with rfl | hmem
    · exact hnumber
    · exact h.numbers entry (Array.mem_toList_iff.mp hmem)

theorem Sound.pop {heap rest : TimerHeap T H} {top : TimerEntry T H} (h : Sound heap)
    (hpop : BinaryHeap.pop TimerEntry.le heap = some (top, rest)) : Sound rest where
  ordered := h.ordered.pop TimerEntry.totalOn h.numbers' hpop
  numbers entry hentry := by
    apply h.numbers entry
    have hperm := (BinaryHeap.pop_perm _ hpop).2
    exact Array.mem_toList_iff.mp
      (hperm.mem_iff.mpr (List.mem_cons_of_mem _ (Array.mem_toList_iff.mpr hentry)))

/-- Nothing in the heap expires before its top. -/
theorem Sound.le_of_top {heap : TimerHeap T H} (h : Sound heap) {top entry : TimerEntry T H}
    (htop : BinaryHeap.peek heap = some top) (hentry : entry ∈ heap) :
    top.expiration ≤ entry.expiration := by
  have hmem : top ∈ heap := Array.mem_of_getElem? htop
  rw [← TimerEntry.le_iff (h.numbers entry hentry) (h.numbers top hmem)]
  exact h.ordered.le_peek TimerEntry.totalOn h.numbers' htop hentry

omit [LE T] [DecidableLE T] [FloatOrder T] in
theorem peek_eq_none {heap : TimerHeap T H} : BinaryHeap.peek heap = none ↔ heap.toList = [] := by
  rw [BinaryHeap.peek, Array.getElem?_eq_none_iff, ← Array.length_toList, Nat.le_zero,
    List.length_eq_zero_iff]

omit [FloatOrder T] in
/-- Nothing is returned of an empty heap. -/
theorem Sound.pops_nil {heap : TimerHeap T H} (h : Sound heap) (now : T) (hnil : heap.toList = []) :
    Pops now heap (heap, []) := by
  refine ⟨h, ?_, [], rfl, List.Pairwise.nil, ?_⟩
  · show heap.toList.Perm _
    rw [hnil]
    exact List.Perm.refl _
  · rw [hnil]
    exact List.Perm.refl _

theorem Sound.popLoop (now : T) (n : Nat) {heap : TimerHeap T H} (h : Sound heap)
    (hsize : heap.size ≤ n) : Pops now heap (heap.popLoop now n) := by
  induction n generalizing heap with
  | zero =>
    exact h.pops_nil now (by simpa using hsize)
  | succ n ih =>
    cases htop : BinaryHeap.peek heap with
    | none =>
      have hloop : heap.popLoop now (n + 1) = (heap, []) := by rw [TimerHeap.popLoop, htop]
      rw [hloop]
      exact h.pops_nil now (peek_eq_none.mp htop)
    | some top =>
      have hfirst {entry : TimerEntry T H} (hentry : entry ∈ heap.toList) :
          top.expiration ≤ entry.expiration := h.le_of_top htop (Array.mem_toList_iff.mp hentry)
      by_cases hdue : top.expiration ≤ now
      · obtain ⟨rest, hpop⟩ := BinaryHeap.pop_of_peek TimerEntry.le htop
        have hperm := (BinaryHeap.pop_perm _ hpop).2
        have hrest := ih (h.pop hpop) (by have := BinaryHeap.size_lt_of_pop _ hpop; omega)
        have hloop : heap.popLoop now (n + 1) =
            ((TimerHeap.popLoop now n rest).1, top.handle :: (TimerHeap.popLoop now n rest).2) := by
          rw [TimerHeap.popLoop, htop]
          simp only [hdue, if_true, hpop]
        rw [hloop]
        obtain ⟨batch, hbatch, hsorted, hcontent⟩ := hrest.batch
        refine ⟨hrest.sound, ?_, top :: batch, ?_, ?_, ?_⟩
        · apply hrest.left.trans
          have hfilter := hperm.filter fun entry => decide (¬ entry.expiration ≤ now)
          rw [List.filter_cons_of_neg (by simpa using hdue)] at hfilter
          exact hfilter.symm
        · rw [hbatch]
          rfl
        · refine List.pairwise_cons.mpr ⟨fun entry hentry => ?_, hsorted⟩
          have hmem := (List.mem_filter.mp (hcontent.mem_iff.mp hentry)).1
          exact hfirst (hperm.mem_iff.mpr (List.mem_cons_of_mem _ hmem))
        · have hfilter := hperm.filter fun entry => decide (entry.expiration ≤ now)
          rw [List.filter_cons_of_pos (by simpa using hdue)] at hfilter
          exact (hcontent.cons top).trans hfilter.symm
      · have hloop : heap.popLoop now (n + 1) = (heap, []) := by
          rw [TimerHeap.popLoop, htop]
          simp only [hdue, if_false]
        -- what the top is too early for, everything is
        have hnone : ∀ entry ∈ heap.toList, ¬ entry.expiration ≤ now := fun entry hentry hle =>
          hdue (FloatOrder.trans (hfirst hentry) hle)
        rw [hloop]
        refine ⟨h, ?_, [], rfl, List.Pairwise.nil, ?_⟩
        · rw [List.filter_eq_self.mpr (by simpa using hnone)]
        · rw [List.filter_eq_nil_iff.mpr (by simpa using hnone)]

theorem Sound.popExpired {heap : TimerHeap T H} (h : Sound heap) (now : T) :
    Pops now heap (heap.popExpired now) := h.popLoop now heap.size (Nat.le_refl _)

end TimerHeap

/-! ## Runs -/

namespace Timers

/-- The law as a run keeps it. -/
structure Kept (acts : List (TimerAct T H)) (s : Timers T H) : Prop where
  sound : s.heap.Sound
  length : s.returned.length = acts.countP TimerAct.isPop
  law : TimerLaw acts s

/-- The last call is the one in question, or it was made before. -/
theorem eq_concat {α : Type} {xs before after : List α} {x y : α} (h : xs ++ [x] = before ++ y :: after) :
    before = xs ∧ y = x ∧ after = [] ∨ ∃ after', after = after' ++ [x] ∧ xs = before ++ y :: after' := by
  rcases List.eq_nil_or_concat after with rfl | ⟨after', z, rfl⟩
  · obtain ⟨hxs, hx⟩ := List.append_inj' h rfl
    cases hx
    exact .inl ⟨hxs.symm, rfl, rfl⟩
  · rw [List.concat_eq_append, ← List.cons_append, ← List.append_assoc] at h
    obtain ⟨hxs, hx⟩ := List.append_inj' h rfl
    cases hx
    exact .inr ⟨after', List.concat_eq_append, hxs⟩

variable [FloatOrder T] {acts : List (TimerAct T H)} {s t : Timers T H}

theorem next_of_kept (hsound : s.heap.Sound) (hkept : s.heap.toList.Perm (pending acts)) :
    (∀ t, s.heap.nextExpiration = some t → (∃ entry ∈ pending acts, entry.expiration = t) ∧
        ∀ entry ∈ pending acts, t ≤ entry.expiration) ∧
      (s.heap.nextExpiration = none ↔ pending acts = []) := by
  constructor
  · intro t ht
    obtain ⟨top, htop, rfl⟩ := Option.map_eq_some_iff.mp ht
    have hmem : top ∈ s.heap.toList := Array.mem_toList_iff.mpr (Array.mem_of_getElem? htop)
    refine ⟨⟨top, hkept.mem_iff.mp hmem, rfl⟩, fun entry hentry => ?_⟩
    exact hsound.le_of_top htop (Array.mem_toList_iff.mp (hkept.mem_iff.mpr hentry))
  · rw [TimerHeap.nextExpiration, Option.map_eq_none_iff, TimerHeap.peek_eq_none]
    constructor
    · intro hnil
      rw [hnil] at hkept
      exact hkept.nil_eq.symm
    · intro hnil
      rw [hnil] at hkept
      exact hkept.eq_nil

theorem Kept.push (h : Kept acts s) {expiration : T} (hnumber : expiration ≤ expiration) (handle : H) :
    Kept (acts ++ [.push expiration handle]) { s with heap := s.heap.push expiration handle } := by
  have hsound : (s.heap.push expiration handle).Sound := h.sound.push hnumber handle
  have hkept : (s.heap.push expiration handle).toList.Perm (pending (acts ++ [.push expiration handle])) := by
    rw [pending_push]
    apply (BinaryHeap.push_perm _ _ s.heap).trans
    exact (h.law.kept.cons _).trans (List.perm_append_singleton _ _).symm
  obtain ⟨hnext, hnone⟩ := next_of_kept (s := { s with heap := s.heap.push expiration handle }) hsound hkept
  refine ⟨hsound, ?_, ?_, ?_, hkept, ?_, hnext, hnone⟩
  · rw [List.countP_append, h.length]
    rfl
  · intro before now after heq
    rcases eq_concat heq with ⟨-, hact, -⟩ | ⟨after', -, hacts⟩
    · cases hact
    · exact h.law.returned before now after' hacts
  · rw [List.filterMap_append]
    have hpush := (TimerHeap.push_handles expiration handle s.heap).append_left s.returned.flatten
    apply List.Perm.trans _ hpush.symm
    apply (List.perm_append_singleton handle _).trans
    exact (h.law.once.cons handle).trans List.perm_middle.symm
  · intro before now heq
    rcases eq_concat heq with ⟨-, hact, -⟩ | ⟨after', hnil, -⟩
    · cases hact
    · cases after' <;> cases hnil

theorem Kept.popExpired (h : Kept acts s) (now : T) : Kept (acts ++ [.popExpired now])
    ⟨(s.heap.popExpired now).1, s.returned ++ [(s.heap.popExpired now).2]⟩ := by
  have hpops := h.sound.popExpired now
  have hleft : (s.heap.popExpired now).1.toList.Perm
      ((pending acts).filter fun entry => ¬ entry.expiration ≤ now) :=
    hpops.left.trans (h.law.kept.filter _)
  have hkept := hleft
  rw [← pending_popExpired] at hkept
  obtain ⟨hnext, hnone⟩ := next_of_kept (s := ⟨(s.heap.popExpired now).1, []⟩) hpops.sound hkept
  refine ⟨hpops.sound, ?_, ?_, ?_, hkept, ?_, hnext, hnone⟩
  · rw [List.countP_append, List.length_append, h.length]
    rfl
  · intro before now' after heq
    rcases eq_concat heq with ⟨rfl, hact, -⟩ | ⟨after', -, hacts⟩
    · cases hact
      obtain ⟨batch, hbatch, hsorted, hcontent⟩ := hpops.batch
      refine ⟨batch, ?_, hsorted, hcontent.trans (h.law.kept.filter _)⟩
      rw [← h.length, ← hbatch]
      exact List.getElem?_concat_length
    · obtain ⟨batch, hbatch, hcontent⟩ := h.law.returned before now' after' hacts
      exact ⟨batch, History.getElem?_append_of_some hbatch _, hcontent⟩
  · rw [List.filterMap_append, List.flatten_append, List.append_assoc]
    show (_ ++ []).Perm _
    rw [List.append_nil]
    apply h.law.once.trans
    apply List.Perm.append_left
    simpa using TimerHeap.popExpired_handles now s.heap
  · intro before now' heq
    rcases eq_concat heq with ⟨rfl, hact, -⟩ | ⟨after', hnil, -⟩
    · cases hact
      exact hleft
    · cases after' <;> cases hnil

theorem Kept.run {more : List (TimerAct T H)} (h : Kept acts s) (hnumbers : ∀ act ∈ more, act.IsNumber)
    (hrun : machine.run s more = some t) : Kept (acts ++ more) t := by
  induction more generalizing acts s with
  | nil =>
    cases hrun
    rwa [List.append_nil]
  | cons act more ih =>
    rw [List.append_cons]
    obtain ⟨u, hstep, hrest⟩ := machine.run_cons_eq_some.mp hrun
    refine ih ?_ (fun x hx => hnumbers x (List.mem_cons_of_mem _ hx)) hrest
    cases act with
    | push expiration handle =>
      cases hstep
      exact h.push (hnumbers _ List.mem_cons_self) handle
    | popExpired now =>
      cases hstep
      exact h.popExpired now

theorem kept_new : Kept ([] : List (TimerAct T H)) new := by
  have hsound : (new : Timers T H).heap.Sound := by
    refine ⟨fun i hi => ?_, fun entry hentry => ?_⟩
    · cases hi
    · exact absurd hentry (Array.not_mem_empty entry)
  have hkept : (new : Timers T H).heap.toList.Perm (pending []) := List.Perm.refl _
  have hnext := next_of_kept hsound hkept
  refine ⟨hsound, rfl, ?_, List.Perm.refl _, List.Perm.refl _, ?_, hnext.1, hnext.2⟩
  · intro before now after heq
    cases before <;> cases heq
  · intro before now heq
    cases before <;> cases heq

/-- Pushed at numbers, the handles are returned by the first `pop_expired` that comes when they are
due, in the order of their expirations. -/
theorem timer_law (hnumbers : ∀ act ∈ acts, act.IsNumber) (hrun : machine.run new acts = some s) :
    TimerLaw acts s :=
  (kept_new.run hnumbers hrun).law

/-- When nothing but numbers is pushed, a `pop_expired` leaves nothing that is due. -/
theorem none_withheld {now : T} (hnumbers : ∀ act ∈ acts, act.IsNumber)
    (hrun : machine.run new (acts ++ [.popExpired now]) = some s) :
    ∀ entry ∈ s.heap, ¬ entry.expiration ≤ now := by
  intro entry hentry
  have hall : ∀ act ∈ acts ++ [.popExpired now], act.IsNumber := by
    intro act hact
    rcases List.mem_append.mp hact with hact | hact
    · exact hnumbers act hact
    · rw [List.mem_singleton.mp hact]
      trivial
  have hkept := kept_new.run hall hrun
  have hmem := (hkept.law.left acts now rfl).mem_iff.mp (Array.mem_toList_iff.mpr hentry)
  simpa using (List.mem_filter.mp hmem).2

end Timers

end

namespace Timers

/-- Two timers at the same time, then one that is due already. -/
def timerRun : List (TimerAct NanTime Nat) :=
  [.push (.number 3) 0, .push (.number 1) 1, .push (.number 1) 2, .popExpired (.number 2),
    .push (.number 0) 3, .popExpired (.number 5)]

/-- A timer is pushed below what is no number. -/
def nanRun : List (TimerAct NanTime Nat) :=
  [.push .nan 0, .push (.number 1) 1, .popExpired (.number 5)]

theorem timer_law_run : ∃ s, machine.run new timerRun = some s ∧ TimerLaw timerRun s :=
  ⟨_, rfl, timer_law (by decide) rfl⟩

theorem none_withheld_run : ∃ s, machine.run new (timerRun ++ [.popExpired (.number 1)]) = some s ∧
    ∀ entry ∈ s.heap, ¬ entry.expiration ≤ .number 1 :=
  have hnumbers : ∀ act ∈ timerRun, act.IsNumber := by decide
  ⟨_, rfl, none_withheld hnumbers rfl⟩

/-- The timer has been due for long, and is left. -/
theorem not_none_withheld : ∃ s, machine.run new nanRun = some s ∧
    ∃ entry ∈ s.heap, entry.expiration ≤ .number 5 := by
  have hpush : (TimerHeap.push (.number 1) 1 (TimerHeap.push .nan 0 #[]) : TimerHeap NanTime Nat) =
      #[⟨.nan, 0⟩, ⟨.number 1, 1⟩] := by
    simp [TimerHeap.push, BinaryHeap.push, BinaryHeap.siftUp]
    decide
  have hpop : (TimerHeap.popExpired (.number 5) #[⟨.nan, 0⟩, ⟨.number 1, 1⟩] : TimerHeap NanTime Nat × List Nat) =
      (#[⟨.nan, 0⟩, ⟨.number 1, 1⟩], []) := rfl
  have hrun (heap : TimerHeap NanTime Nat)
      (h : (TimerHeap.push .nan 0 #[]).push (.number 1) 1 = heap) : machine.run new nanRun =
        some ⟨(heap.popExpired (.number 5)).1, [(heap.popExpired (.number 5)).2]⟩ := by
    subst h
    rfl
  rw [hrun _ hpush, hpop]
  exact ⟨_, rfl, ⟨.number 1, 1⟩, by simp, by decide⟩

end Timers

end Uringcore
