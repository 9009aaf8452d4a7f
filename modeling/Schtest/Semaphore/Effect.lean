import Schtest.Semaphore.Call

/-!
# What one step of a call can do

Invariants about the count word and the futex queue do not depend on the exact
program counter.  This module groups the program counters into stages and
states once which effects a step can have on word, queue and stage; every
later argument about all interleavings is a case analysis over `Effect`.
-/

namespace Schtest.Semaphore

open Schtest.Clock

universe u

/-- The program counters as an invariant of the word and the queue sees them. -/
inductive Stage
  /-- The amount is not exchanged yet and the thread is not in the queue. -/
  | trying
  /-- Inside `FUTEX_WAIT`, still queued or already removed by a waker. -/
  | asleep
  /-- The exchange took a flagged word; the `FUTEX_WAKE` is outstanding. -/
  | waking
  | returned (result : Bool)
  deriving DecidableEq, Repr

namespace Pc

/-- The stage of a program counter. -/
def stage : Pc → Stage
  | .load | .commit _ | .arm _ | .cookie _ | .wait _ _ => .trying
  | .elapsed _ | .expired _ _ | .sample _ => .trying
  | .asleep _ => .asleep
  | .reset | .stamp _ | .notify => .waking
  | .returned result => .returned result

/-- What the branches of the loop have established about the loaded word. -/
def Valid (call : Call) (max : U32) : Pc → Prop
  | .commit cur => call.op.admits max call.v (amountOf cur) = true
  | .arm cur => call.op.admits max call.v (amountOf cur) = false ∧ hasWaiter cur = false
  | .cookie cur | .wait cur _ =>
      call.op.admits max call.v (amountOf cur) = false ∧ hasWaiter cur = true
  | _ => True

/-- Without wake timers no slot is read or stamped. -/
def Timerless : Pc → Prop
  | .elapsed _ | .stamp _ => False
  | _ => True

end Pc

variable {S R : Nat} {ι : Type u} [DecidableEq ι]

/-- The effects of a step of `call` by `tid` on the semaphore, with the program
counter and the event it leads to. -/
inductive Effect (call : Call) (tid : ι) (sem : Semaphore S R ι) (pc : Pc) :
    Semaphore S R ι → Pc → Option Event → Prop
  | retry {next event} : pc.stage = .trying → next.stage = .trying → event ≠ some .committed →
      Effect call tid sem pc sem next event
  | arm {next event} : pc.stage = .trying → next.stage = .trying → event ≠ some .committed →
      hasWaiter sem.count = false →
      Effect call tid sem pc { sem with count := withWaiter sem.count } next event
  | commit {next} : pc.stage = .trying →
      next.stage = (if hasWaiter sem.count then .waking else .returned true) →
      call.op.admits sem.max call.v (amountOf sem.count) = true →
      Effect call tid sem pc
        { sem with count := call.op.apply call.v (amountOf sem.count) } next (some .committed)
  | enqueue {next event} : pc.stage = .trying → next.stage = .asleep → event ≠ some .committed →
      hasWaiter sem.count = true → call.op.admits sem.max call.v (amountOf sem.count) = false →
      Effect call tid sem pc { sem with queue := sem.queue ++ [tid] } next event
  | resume {next event} : pc.stage = .asleep → next.stage = .trying → event ≠ some .committed →
      tid ∉ sem.queue → Effect call tid sem pc sem next event
  | interrupt {next event} : pc.stage = .asleep → next.stage = .trying →
      event ≠ some .committed → tid ∈ sem.queue →
      Effect call tid sem pc { sem with queue := sem.queue.erase tid } next event
  | expire {next event} : pc.stage = .asleep → next.stage = .returned false →
      event ≠ some .committed → tid ∈ sem.queue → call.timeout.isSome = true →
      Effect call tid sem pc { sem with queue := sem.queue.erase tid } next event
  | measure {next event wake} : pc.stage = .waking → next.stage = .waking →
      event ≠ some .committed → Effect call tid sem pc { sem with wake := wake } next event
  | notify {remaining next event} : pc.stage = .waking → next.stage = .returned true →
      event ≠ some .committed → remaining.Sublist sem.queue →
      remaining.length = sem.queue.length - futexWakeCount call.wake →
      Effect call tid sem pc { sem with queue := remaining } next event

/-- The bound of a semaphore is never written. -/
theorem Effect.max_eq {call : Call} {tid : ι} {sem semNext : Semaphore S R ι} {pc next : Pc}
    {event : Option Event} (effect : Effect call tid sem pc semNext next event) :
    semNext.max = sem.max := by
  cases effect <;> rfl

/-- Without a timeout no step makes a call return `false`. -/
theorem Effect.not_expired {call : Call} {tid : ι} {sem semNext : Semaphore S R ι}
    {pc next : Pc} {event : Option Event} (effect : Effect call tid sem pc semNext next event)
    (timeout : call.timeout = none) : next.stage ≠ .returned false := by
  cases effect with
  | commit _ after _ =>
      rw [after]
      split <;> simp
  | expire _ _ _ _ timed => simp [timeout] at timed
  | retry _ after _ => simp [after]
  | arm _ after _ _ => simp [after]
  | enqueue _ after _ _ _ => simp [after]
  | resume _ after _ _ => simp [after]
  | interrupt _ after _ _ => simp [after]
  | measure _ after _ => simp [after]
  | notify _ after _ _ _ => simp [after]

/-- A step that does not exchange the amount leaves it alone. -/
theorem Effect.commit_or_quiet {call : Call} {tid : ι} {sem semNext : Semaphore S R ι}
    {pc next : Pc} {event : Option Event} (effect : Effect call tid sem pc semNext next event) :
    (event = some .committed ∧ call.op.admits sem.max call.v (amountOf sem.count) = true ∧
      semNext.count = call.op.apply call.v (amountOf sem.count)) ∨
    (event ≠ some .committed ∧ amountOf semNext.count = amountOf sem.count) := by
  cases effect with
  | commit _ _ admitted => exact Or.inl ⟨rfl, admitted, rfl⟩
  | arm _ _ quiet _ => exact Or.inr ⟨quiet, amountOf_withWaiter _⟩
  | retry _ _ quiet => exact Or.inr ⟨quiet, rfl⟩
  | enqueue _ _ quiet _ _ => exact Or.inr ⟨quiet, rfl⟩
  | resume _ _ quiet _ => exact Or.inr ⟨quiet, rfl⟩
  | interrupt _ _ quiet _ => exact Or.inr ⟨quiet, rfl⟩
  | expire _ _ quiet _ _ => exact Or.inr ⟨quiet, rfl⟩
  | measure _ _ quiet => exact Or.inr ⟨quiet, rfl⟩
  | notify _ _ quiet _ _ => exact Or.inr ⟨quiet, rfl⟩

/-- Exchanges made so far by a call in this stage. -/
def Stage.commits : Stage → Nat
  | .trying | .asleep => 0
  | .waking => 1
  | .returned result => result.toNat

theorem Stage.commits_le_one (stage : Stage) : stage.commits ≤ 1 := by
  cases stage with
  | returned result => exact Bool.toNat_le result
  | _ => decide

/-- The exchange of the amount is the only step that moves a call to a stage
with one more exchange. -/
theorem Effect.commits_eq {call : Call} {tid : ι} {sem semNext : Semaphore S R ι} {pc next : Pc}
    {event : Option Event} (effect : Effect call tid sem pc semNext next event) :
    next.stage.commits = pc.stage.commits + if event = some .committed then 1 else 0 := by
  cases effect with
  | commit before after _ =>
      rw [before, after]
      by_cases flagged : hasWaiter sem.count = true <;> simp [flagged, Stage.commits]
  | retry before after quiet => simp [before, after, quiet]
  | arm before after quiet _ => simp [before, after, quiet]
  | measure before after quiet => simp [before, after, quiet]
  | enqueue before after quiet _ _ => simp [before, after, quiet, Stage.commits]
  | resume before after quiet _ => simp [before, after, quiet, Stage.commits]
  | interrupt before after quiet _ => simp [before, after, quiet, Stage.commits]
  | expire before after quiet _ _ => simp [before, after, quiet, Stage.commits]
  | notify before after quiet _ _ => simp [before, after, quiet, Stage.commits]

omit [DecidableEq ι] in
theorem Call.branch_stage (call : Call) (max cur : U32) :
    (call.branch max cur).stage = .trying := by
  unfold Call.branch
  split
  · rfl
  · split <;> rfl

/-- The branches taken after a load are valid for the loaded word. -/
theorem Call.branch_valid (call : Call) (max cur : U32) :
    (call.branch max cur).Valid call max := by
  unfold Call.branch
  split
  · rename_i admitted
    exact admitted
  · rename_i refused
    split
    · rename_i flagged
      exact ⟨Bool.eq_false_iff.mpr refused, flagged⟩
    · rename_i unflagged
      exact ⟨Bool.eq_false_iff.mpr refused, Bool.eq_false_iff.mpr unflagged⟩

/-- Inversion of `Call.step`: a step from a valid program counter has one of
the listed effects and leads to a valid program counter. -/
theorem Call.effect_of_step {call : Call} {now : Nat} {tid : ι} {sem : Semaphore S R ι}
    {pc : Pc} {choice : Choice ι} {out : Outcome S R ι} (valid : pc.Valid call sem.max)
    (step : call.step now tid sem pc choice = some out) :
    Effect call tid sem pc out.sem out.pc out.event ∧ out.pc.Valid call sem.max := by
  unfold Call.step at step
  split at step
  case h_1 => -- load
    cases step
    exact ⟨.retry rfl (call.branch_stage _ _) (by simp), call.branch_valid _ _⟩
  case h_2 cur => -- commit
    split at step
    · rename_i unchanged
      cases step
      subst unchanged
      refine ⟨.commit rfl ?_ valid, ?_⟩
      · split <;> rfl
      · split <;> trivial
    · cases step
      exact ⟨.retry rfl rfl (by simp), trivial⟩
  case h_3 => -- spurious failure of the exchange
    cases step
    exact ⟨.retry rfl rfl (by simp), trivial⟩
  case h_4 cur => -- arm
    split at step
    · rename_i unchanged
      cases step
      subst unchanged
      exact ⟨.arm rfl rfl (by simp) valid.2,
        by simpa using valid.1, by simp⟩
    · cases step
      exact ⟨.retry rfl rfl (by simp), trivial⟩
  case h_5 =>
    cases step
    exact ⟨.retry rfl rfl (by simp), trivial⟩
  case h_6 => -- cookie
    cases step
    exact ⟨.retry rfl rfl (by simp), valid⟩
  case h_7 cur cookie => -- FUTEX_WAIT
    split at step
    · rename_i unchanged
      cases step
      subst unchanged
      exact ⟨.enqueue rfl rfl (by simp) valid.2 valid.1, trivial⟩
    · cases step
      exact ⟨.retry rfl rfl (by simp), trivial⟩
  case h_8 =>
    cases step
    exact ⟨.retry rfl rfl (by simp), trivial⟩
  case h_9 => -- removed from the queue by a waker
    split at step
    · contradiction
    · rename_i notQueued
      cases step
      refine ⟨.resume rfl ?_ (by simp) notQueued, ?_⟩
      · split <;> rfl
      · split <;> trivial
  case h_10 => -- EINTR
    split at step
    · rename_i queued
      cases step
      exact ⟨.interrupt rfl rfl (by simp) queued, trivial⟩
    · contradiction
  case h_11 => -- ETIMEDOUT
    split at step
    · rename_i queued
      cases step
      exact ⟨.expire rfl rfl (by simp) queued.1 queued.2, trivial⟩
    · contradiction
  case h_12 => -- return without a wake
    split at step
    · rename_i queued
      cases step
      refine ⟨.interrupt rfl ?_ (by simp) queued, ?_⟩
      · split <;> rfl
      · split <;> trivial
    · contradiction
  case h_13 =>
    split at step
    · contradiction
    · cases step
      exact ⟨.retry rfl rfl (by simp), trivial⟩
  case h_14 =>
    cases step
    refine ⟨.retry rfl ?_ (by simp), ?_⟩
    · split <;> rfl
    · split <;> trivial
  case h_15 =>
    cases step
    exact ⟨.retry rfl rfl (by simp), trivial⟩
  case h_16 => -- SplitTimer::reset, index
    split at step
    · cases step
      exact ⟨.measure rfl rfl (by simp), trivial⟩
    · cases step
      exact ⟨.measure rfl rfl (by simp), trivial⟩
  case h_17 => -- SplitTimer::reset, slot
    split at step
    · contradiction
    · cases step
      exact ⟨.measure rfl rfl (by simp), trivial⟩
  case h_18 => -- FUTEX_WAKE
    split at step
    · rename_i woken
      cases step
      exact ⟨.notify rfl rfl (by simp) woken.1 woken.2, trivial⟩
    · contradiction
  case h_19 => contradiction

/-- A call returns from its waking stage through `FUTEX_WAKE` only, and the
environment chooses who stays in the queue. -/
theorem Call.notify_of_returned {call : Call} {now : Nat} {tid : ι} {sem : Semaphore S R ι}
    {pc : Pc} {choice : Choice ι} {out : Outcome S R ι}
    (step : call.step now tid sem pc choice = some out) (waking : pc.stage = .waking)
    (returned : out.pc.stage = .returned true) :
    ∃ remaining, choice = .wake remaining ∧ out.sem.queue = remaining := by
  unfold Call.step at step
  split at step
  case h_18 remaining =>
    split at step
    · cases step
      exact ⟨remaining, rfl, rfl⟩
    · contradiction
  all_goals first
    | contradiction
    | (split at step <;> cases step <;> contradiction)

/-- The program counter from which an exchange or a wait is made. -/
def Event.Source (call : Call) (count : U32) (pc : Pc) : Event → Prop
  | .committed => pc = .commit count
  | .futexWait passed => passed = call.timeout ∧ ∃ cur cookie, pc = .wait cur cookie
  | _ => True

/-- The amount is exchanged for the word that was loaded, and a wait passes the timeout. -/
theorem Call.source_of_step {call : Call} {now : Nat} {tid : ι} {sem : Semaphore S R ι}
    {pc : Pc} {choice : Choice ι} {out : Outcome S R ι} {event : Event}
    (step : call.step now tid sem pc choice = some out) (happened : out.event = some event) :
    event.Source call sem.count pc := by
  unfold Call.step at step
  split at step
  case h_2 cur => -- compare_exchange of the amount
    split at step
    · rename_i unchanged
      cases step
      cases happened
      exact congrArg Pc.commit unchanged.symm
    · cases step
      contradiction
  case h_7 cur cookie => -- FUTEX_WAIT
    split at step
    · cases step
      cases happened
      exact ⟨rfl, cur, cookie, rfl⟩
    · cases step
      cases happened
      exact ⟨rfl, cur, cookie, rfl⟩
  case h_8 cur cookie =>
    cases step
    cases happened
    exact ⟨rfl, cur, cookie, rfl⟩
  all_goals first
    | contradiction
    | (cases step; first | contradiction | (cases happened; trivial))
    | (split at step <;> cases step <;> first | contradiction | (cases happened; trivial))

/-- Slots are read and stamped where there are wake timers. -/
def Pc.Timed (S : Nat) : Pc → Prop
  | .elapsed _ | .stamp _ => S ≠ 0
  | _ => True

theorem Pc.timerless_iff {pc : Pc} : pc.Timerless ↔ pc.Timed 0 := by
  cases pc <;> simp [Pc.Timerless, Pc.Timed]

omit [DecidableEq ι] in
theorem Call.branch_timed (call : Call) (max cur : U32) : (call.branch max cur).Timed S := by
  unfold Call.branch
  split
  · trivial
  · split <;> trivial

/-- No call is led to a slot that does not exist. -/
theorem Call.timed_of_step {call : Call} {now : Nat} {tid : ι} {sem : Semaphore S R ι}
    {pc : Pc} {choice : Choice ι} {out : Outcome S R ι}
    (step : call.step now tid sem pc choice = some out) : out.pc.Timed S := by
  unfold Call.step at step
  split at step
  case h_1 =>
    cases step
    exact call.branch_timed _ _
  case h_9 => -- removed from the queue by a waker
    split at step
    · contradiction
    · cases step
      dsimp only
      split
      · assumption
      · trivial
  case h_12 => -- return without a wake
    split at step
    · cases step
      dsimp only
      split
      · assumption
      · trivial
    · contradiction
  case h_16 => -- SplitTimer::reset, index
    split at step
    · cases step
      trivial
    · rename_i timers
      cases step
      exact timers
  all_goals first
    | contradiction
    | (cases step; trivial)
    | (cases step; dsimp only; split <;> trivial)
    | (split at step <;> cases step <;> first | trivial | (dsimp only; split <;> trivial))

/-- A semaphore without wake timers never leads a call to a slot. -/
theorem Call.timerless_of_step {call : Call} {now : Nat} {tid : ι} {sem : Semaphore 0 R ι}
    {pc : Pc} {choice : Choice ι} {out : Outcome 0 R ι}
    (step : call.step now tid sem pc choice = some out) : out.pc.Timerless :=
  Pc.timerless_iff.mpr (Call.timed_of_step step)

/-- A call that has not returned and is not asleep can go on by itself. -/
theorem Call.exists_step_of_timed (call : Call) (now : Nat) (tid : ι) (sem : Semaphore S R ι)
    {pc : Pc} (timed : pc.Timed S) (unreturned : pc.result = none)
    (awake : pc.stage = .asleep → tid ∉ sem.queue) :
    ∃ choice, choice.voluntary = true ∧ (call.step now tid sem pc choice).isSome = true := by
  cases pc with
  | elapsed cookie => exact ⟨.run, rfl, by simp [Call.step, show S ≠ 0 from timed]⟩
  | stamp index => exact ⟨.run, rfl, by simp [Call.step, show S ≠ 0 from timed]⟩
  | returned result => contradiction
  | notify =>
      refine ⟨.wake (sem.queue.drop (futexWakeCount call.wake)), rfl, ?_⟩
      simp [Call.step, List.drop_sublist]
  | asleep cookie => exact ⟨.run, rfl, by simp [Call.step, awake rfl]⟩
  | reset => exact ⟨.run, rfl, by unfold Call.step; dsimp only; split <;> rfl⟩
  | commit cur => exact ⟨.run, rfl, by unfold Call.step; dsimp only; split <;> rfl⟩
  | arm cur => exact ⟨.run, rfl, by unfold Call.step; dsimp only; split <;> rfl⟩
  | wait cur cookie => exact ⟨.run, rfl, by unfold Call.step; dsimp only; split <;> rfl⟩
  | load => exact ⟨.run, rfl, rfl⟩
  | cookie cur => exact ⟨.run, rfl, rfl⟩
  | expired cookie measured => exact ⟨.run, rfl, rfl⟩
  | sample measured => exact ⟨.run, rfl, rfl⟩

theorem Call.exists_step (call : Call) (now : Nat) (tid : ι) (sem : Semaphore 0 R ι) {pc : Pc}
    (timerless : pc.Timerless) (unreturned : pc.result = none)
    (awake : pc.stage = .asleep → tid ∉ sem.queue) :
    ∃ choice, choice.voluntary = true ∧ (call.step now tid sem pc choice).isSome = true :=
  call.exists_step_of_timed now tid sem (Pc.timerless_iff.mp timerless) unreturned awake

end Schtest.Semaphore
