import Mathlib.Algebra.GroupWithZero.Nat
import Mathlib.Logic.Function.Basic

/-!
# Timers

An instant is a number of nanoseconds on the machine's monotonic clock, passed
explicitly to the operations that read it.  A `Timer` stores the nanoseconds
since its own reference instant in a `u64`.  A `SplitTimer` cycles through `S`
timers; its `reset` is two atomic steps, drawing an index and stamping a slot,
and its `elapsed` is two atomic loads, so each half is also given separately.
-/

namespace Schtest.Clock

/-- Number of values of a `u64`. -/
def U64_SIZE : Nat :=
  2 ^ 64

/-- `instant.duration_since(reference).as_nanos() as u64`. -/
def nanosSince (reference instant : Nat) : Nat :=
  (instant - reference) % U64_SIZE

theorem nanosSince_of_lt {reference instant : Nat} (small : instant < U64_SIZE) :
    nanosSince reference instant = instant - reference :=
  Nat.mod_eq_of_lt (by omega)

/-- A timer: the stored start and the reference instant it is relative to. -/
structure Timer where
  start : Nat
  reference : Nat
  deriving DecidableEq, Repr

namespace Timer

/-- The two clock readings of `Timer::new`: the reference and the start. -/
def new (reference now : Nat) : Timer :=
  ⟨nanosSince reference now, reference⟩

/-- Nanoseconds since the last reset, zero when the clock is not ahead. -/
def elapsed (timer : Timer) (now : Nat) : Nat :=
  if nanosSince timer.reference now ≤ timer.start then 0
  else nanosSince timer.reference now - timer.start

/-- Store the current instant. -/
def reset (timer : Timer) (now : Nat) : Timer :=
  { timer with start := nanosSince timer.reference now }

@[simp]
theorem reset_reference (timer : Timer) (now : Nat) :
    (timer.reset now).reference = timer.reference :=
  rfl

/-- A timer measures the time since its last reset. -/
theorem elapsed_reset {timer : Timer} {stamped now : Nat}
    (created : timer.reference ≤ stamped) (ordered : stamped ≤ now) (small : now < U64_SIZE) :
    (timer.reset stamped).elapsed now = now - stamped := by
  have stampedSmall : stamped < U64_SIZE := by omega
  simp only [elapsed, reset, nanosSince_of_lt small, nanosSince_of_lt stampedSmall]
  split <;> omega

end Timer

/-- An array of `S` timers and the index of the next one to reset. -/
structure SplitTimer (S : Nat) where
  timers : Fin S → Timer
  index : Nat

namespace SplitTimer

variable {S : Nat}

/-- `SplitTimer::new`; each timer takes its own two clock readings. -/
def new (readings : Fin S → Nat × Nat) : SplitTimer S where
  timers slot := Timer.new (readings slot).1 (readings slot).2
  index := 0

/-- `index as usize % S`. -/
def slot [NeZero S] (index : Nat) : Fin S :=
  Fin.ofNat S index

/-- The operations on slots need one. -/
theorem neZero (zero : S ≠ 0) : NeZero S :=
  ⟨zero⟩

/-- First half of `reset`: `self.index.fetch_add(1)`. -/
def advance (timer : SplitTimer S) : SplitTimer S :=
  { timer with index := (timer.index + 1) % U64_SIZE }

/-- Second half of `reset`: `self.timers[orig_index as usize % S].reset()`. -/
def stamp [NeZero S] (timer : SplitTimer S) (origIndex now : Nat) : SplitTimer S :=
  { timer with
    timers := Function.update timer.timers (slot origIndex)
      ((timer.timers (slot origIndex)).reset now) }

/-- Reset the timer. -/
def reset (timer : SplitTimer S) (now : Nat) : SplitTimer S :=
  if zero : S = 0 then timer
  else
    have : NeZero S := neZero zero
    timer.advance.stamp timer.index now

/-- The current cookie value. -/
def cookie (timer : SplitTimer S) : Nat :=
  timer.index

/-- First half of `elapsed`: `self.timers[cookie as usize % S].elapsed()`. -/
def slotElapsed [NeZero S] (timer : SplitTimer S) (cookie now : Nat) : Nat :=
  (timer.timers (slot cookie)).elapsed now

/-- Second half of `elapsed`: the cookie is too old. -/
def expired (timer : SplitTimer S) (cookie : Nat) : Bool :=
  decide ((cookie + S) % U64_SIZE ≤ timer.index)

/-- The elapsed time for the given cookie. -/
def elapsed (timer : SplitTimer S) (cookie now : Nat) : Option Nat :=
  if zero : S = 0 then none
  else
    have : NeZero S := neZero zero
    if timer.expired cookie then none else some (timer.slotElapsed cookie now)

@[simp]
theorem advance_timers (timer : SplitTimer S) : timer.advance.timers = timer.timers :=
  rfl

@[simp]
theorem stamp_index [NeZero S] (timer : SplitTimer S) (origIndex now : Nat) :
    (timer.stamp origIndex now).index = timer.index :=
  rfl

theorem advance_index_of_lt {timer : SplitTimer S} (small : timer.index + 1 < U64_SIZE) :
    timer.advance.index = timer.index + 1 :=
  Nat.mod_eq_of_lt small

/-- A cookie that has expired stays expired while the index grows. -/
theorem expired_mono {timer next : SplitTimer S} {cookie : Nat}
    (grows : timer.index ≤ next.index) (expired : timer.expired cookie = true) :
    next.expired cookie = true := by
  simp only [SplitTimer.expired, decide_eq_true_eq] at expired ⊢
  exact Nat.le_trans expired grows

end SplitTimer

end Schtest.Clock
