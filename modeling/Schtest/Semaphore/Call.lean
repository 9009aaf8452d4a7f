import Schtest.Clock.Timer
import Schtest.Semaphore.Word
import Mathlib.Data.List.Sublists

/-!
# Semaphore calls as atomic steps

`consume` and `produce` are one loop that differs only in the condition on the
amount and in the new amount.  A call in progress is a program counter with the
locals of the loop; one step performs one atomic operation on the semaphore or
one futex system call.  The futex queue of the count word belongs to the kernel
and is part of the semaphore here: a thread asleep in `FUTEX_WAIT` is a member
of the queue, and it can run again once a `FUTEX_WAKE` has removed it, or when
the kernel ends the wait on its own.

Arithmetic on the count word wraps as it does in a release build; the builds that
the modules read are compared at `Shared.Profile`.
-/

namespace Schtest.Semaphore

open Schtest.Clock

universe u

/-- The two operations of a semaphore. -/
inductive Op
  | consume
  | produce
  deriving DecidableEq, Repr

namespace Op

/-- The loop's test: `amount >= v` or `amount + v <= self.max`. -/
def admits (op : Op) (max v amount : U32) : Bool :=
  match op with
  | .consume => decide (v ≤ amount)
  | .produce => decide (amount + v ≤ max)

/-- The amount stored by the successful exchange. -/
def apply (op : Op) (v amount : U32) : U32 :=
  match op with
  | .consume => amount - v
  | .produce => amount + v

end Op

/-- The arguments of one call; the timeout is in nanoseconds. -/
structure Call where
  op : Op
  v : U32
  wake : U32
  timeout : Option Nat
  deriving DecidableEq, Repr

/-- `self.consume(v, wake, timeout)`. -/
def consume (v wake : U32) (timeout : Option Nat) : Call :=
  ⟨.consume, v, wake, timeout⟩

/-- `self.produce(v, wake, timeout)`. -/
def produce (v wake : U32) (timeout : Option Nat) : Call :=
  ⟨.produce, v, wake, timeout⟩

end Schtest.Semaphore

namespace Schtest

open Schtest.Clock Schtest.Semaphore

universe u

/-- A semaphore with `S` wake timers.  `R` is the size of its reservoir, which
the calls only compare with zero; the samples they pass to it are events. -/
structure Semaphore (S R : Nat) (ι : Type u) where
  count : U32
  max : U32
  wake : SplitTimer S
  queue : List ι

end Schtest

namespace Schtest.Semaphore

open Schtest.Clock

universe u

variable {S R : Nat} {ι : Type u}

/-- `Semaphore::new`; nobody waits on the fresh word. -/
def new (max : U32) (readings : Fin S → Nat × Nat) : Semaphore S R ι where
  count := 0
  max := max &&& ~~~WAITER
  wake := SplitTimer.new readings
  queue := []

@[simp]
theorem new_amount (max : U32) (readings : Fin S → Nat × Nat) :
    amountOf (new max readings : Semaphore S R ι).count = 0 := by
  change amountOf 0 = 0
  decide

/-- Where a call is, with the locals that are still needed. -/
inductive Pc
  /-- About to load the word. -/
  | load
  /-- The loaded word admits the call: about to exchange it. -/
  | commit (cur : U32)
  /-- It does not and has no flag: about to set `WAITER`. -/
  | arm (cur : U32)
  /-- About to read the cookie. -/
  | cookie (cur : U32)
  /-- About to enter `FUTEX_WAIT` with the expected word `cur`. -/
  | wait (cur : U32) (cookie : Nat)
  /-- Inside `FUTEX_WAIT`. -/
  | asleep (cookie : Nat)
  /-- `FUTEX_WAIT` returned 0, by a wake or without one: about to read the cookie's slot. -/
  | elapsed (cookie : Nat)
  /-- About to compare the index with the cookie. -/
  | expired (cookie measured : Nat)
  /-- About to hand the measured duration to the reservoir. -/
  | sample (measured : Nat)
  /-- The exchange succeeded on a flagged word: about to draw a timer index. -/
  | reset
  /-- About to store the instant into the drawn slot. -/
  | stamp (index : Nat)
  /-- About to issue `FUTEX_WAKE`. -/
  | notify
  | returned (result : Bool)
  deriving DecidableEq, Repr

/-- The value a call has returned, once it has. -/
def Pc.result : Pc → Option Bool
  | .returned result => some result
  | _ => none

theorem Pc.result_eq_some_iff {pc : Pc} {result : Bool} :
    pc.result = some result ↔ pc = .returned result := by
  cases pc <;> simp [Pc.result]

/-- How the environment resolves one step. -/
inductive Choice (ι : Type u)
  /-- The operation takes its normal course. -/
  | run
  /-- A spurious failure of `compare_exchange_weak`, or `EINTR` in `FUTEX_WAIT`. -/
  | fail
  /-- The timeout of `FUTEX_WAIT` expires. -/
  | timeout
  /-- `FUTEX_WAIT` returns 0 to a thread that no `FUTEX_WAKE` has woken. -/
  | spurious
  /-- `FUTEX_WAKE` leaves exactly these threads in the queue. -/
  | wake (remaining : List ι)
  deriving DecidableEq, Repr

/-- The operation takes its course: no failure, no timeout, no spurious wake. -/
def Choice.voluntary {ι : Type u} : Choice ι → Bool
  | .run | .wake _ => true
  | .fail | .timeout | .spurious => false

/-- What a step does that an observer of the call may want to know. -/
inductive Event
  /-- The exchange of the amount succeeded. -/
  | committed
  | readCookie (cookie : Nat)
  /-- `FUTEX_WAIT` is issued with this relative timeout. -/
  | futexWait (timeout : Option Nat)
  /-- The thread leaves `FUTEX_WAIT` after having slept. -/
  | awoke
  | stamped (index : Nat)
  | readSlot (measured : Nat)
  | sampled (measured : Nat)
  | returned (result : Bool)
  deriving DecidableEq, Repr

/-- The result of one step of a call. -/
structure Outcome (S R : Nat) (ι : Type u) where
  sem : Semaphore S R ι
  pc : Pc
  event : Option Event

/-- How many waiters `FUTEX_WAKE` wakes at most.  The kernel reads the count as
a signed integer and compares it after each waiter, so it wakes at least one. -/
def futexWakeCount (wake : U32) : Nat :=
  Nat.max 1 wake.toInt.toNat

/-- The branches of the loop body between a load and the next atomic step. -/
def Call.branch (call : Call) (max cur : U32) : Pc :=
  if call.op.admits max call.v (amountOf cur) then .commit cur
  else if hasWaiter cur then .cookie cur
  else .arm cur

variable [DecidableEq ι]

/-- One atomic step of `call` by thread `tid` at instant `now`. -/
def Call.step (call : Call) (now : Nat) (tid : ι) (sem : Semaphore S R ι) :
    Pc → Choice ι → Option (Outcome S R ι)
  | .load, .run => some ⟨sem, call.branch sem.max sem.count, none⟩
  | .commit cur, .run =>
      if sem.count = cur then
        some ⟨{ sem with count := call.op.apply call.v (amountOf cur) },
          if hasWaiter cur then .reset else .returned true, some .committed⟩
      else some ⟨sem, .load, none⟩
  | .commit _, .fail => some ⟨sem, .load, none⟩
  | .arm cur, .run =>
      if sem.count = cur then
        some ⟨{ sem with count := withWaiter cur }, .cookie (withWaiter cur), none⟩
      else some ⟨sem, .load, none⟩
  | .arm _, .fail => some ⟨sem, .load, none⟩
  | .cookie cur, .run =>
      some ⟨sem, .wait cur sem.wake.cookie, some (.readCookie sem.wake.cookie)⟩
  | .wait cur cookie, .run =>
      if sem.count = cur then
        some ⟨{ sem with queue := sem.queue ++ [tid] }, .asleep cookie,
          some (.futexWait call.timeout)⟩
      else some ⟨sem, .load, some (.futexWait call.timeout)⟩  -- EAGAIN
  | .wait _ _, .fail => some ⟨sem, .load, some (.futexWait call.timeout)⟩
  | .asleep cookie, .run =>
      if tid ∈ sem.queue then none
      else some ⟨sem, if S ≠ 0 then .elapsed cookie else .load, some .awoke⟩
  | .asleep _, .fail =>
      if tid ∈ sem.queue then
        some ⟨{ sem with queue := sem.queue.erase tid }, .load, some .awoke⟩
      else none
  | .asleep _, .timeout =>
      if tid ∈ sem.queue ∧ call.timeout.isSome then
        some ⟨{ sem with queue := sem.queue.erase tid }, .returned false, some .awoke⟩
      else none
  | .asleep cookie, .spurious =>
      if tid ∈ sem.queue then
        some ⟨{ sem with queue := sem.queue.erase tid },
          if S ≠ 0 then .elapsed cookie else .load, some .awoke⟩
      else none
  | .elapsed cookie, .run =>
      if zero : S = 0 then none
      else
        have : NeZero S := SplitTimer.neZero zero
        let measured := sem.wake.slotElapsed cookie now
        some ⟨sem, .expired cookie measured, some (.readSlot measured)⟩
  | .expired cookie measured, .run =>
      some ⟨sem, if ¬ sem.wake.expired cookie ∧ R ≠ 0 then .sample measured else .load, none⟩
  | .sample measured, .run => some ⟨sem, .load, some (.sampled measured)⟩
  | .reset, .run =>
      if S = 0 then some ⟨sem, .notify, none⟩
      else some ⟨{ sem with wake := sem.wake.advance }, .stamp sem.wake.index, none⟩
  | .stamp index, .run =>
      if zero : S = 0 then none
      else
        have : NeZero S := SplitTimer.neZero zero
        some ⟨{ sem with wake := sem.wake.stamp index now }, .notify, some (.stamped index)⟩
  | .notify, .wake remaining =>
      if remaining.Sublist sem.queue ∧
          remaining.length = sem.queue.length - futexWakeCount call.wake then
        some ⟨{ sem with queue := remaining }, .returned true, none⟩
      else none
  | _, _ => none

end Schtest.Semaphore
