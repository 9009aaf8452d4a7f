import Schtest.Semaphore.Conservation
import Mathlib.Data.Fintype.Basic

/-!
# Lost wakeups

A successful exchange clears the `WAITER` bit for every sleeping thread but
wakes only `wake` of them.  A thread it leaves in the queue is forgotten unless
somebody else still has a `FUTEX_WAKE` outstanding or the bit has been set
again: the next exchange sees an unflagged word and wakes nobody.

The invariant behind the positive result is that every queued thread is
*covered*: the word is flagged and does not admit the thread's call, or some
thread is on its way to `FUTEX_WAKE`.
-/

namespace Schtest.Semaphore

open Schtest.Transition

universe u

variable {S R : Nat} {ι : Type u} [DecidableEq ι]

/-- The condition of the call in progress holds for this amount. -/
def Thread.Satisfied (max amount : Nat) (thread : Thread) : Prop :=
  match thread.calls with
  | [] => False
  | call :: _ => call.op.Admits max call.v.toNat amount

instance (max amount : Nat) (thread : Thread) : Decidable (thread.Satisfied max amount) := by
  unfold Thread.Satisfied
  cases thread.calls
  · exact instDecidableFalse
  · exact inferInstanceAs (Decidable (Op.Admits _ _ _ _))

/-- All calls of the thread have returned. -/
def Thread.Finished (thread : Thread) : Prop :=
  thread.calls = []

/-- The amount in the word and the bound, as natural numbers. -/
def Satisfied (config : Threads ι (Shared S R ι) Thread) (tid : ι) : Prop :=
  (config.locals tid).Satisfied config.shared.sem.max.toNat
    (amountOf config.shared.sem.count).toNat

/-- The thread is in `FUTEX_WAIT` and nobody has woken it. -/
def Asleep (config : Threads ι (Shared S R ι) Thread) (tid : ι) : Prop :=
  (config.locals tid).pc.stage = .asleep ∧ tid ∈ config.shared.sem.queue

/-- Nobody can run, and some sleeping thread's own condition is satisfied. -/
structure LostWakeup (config : Threads ι (Shared S R ι) Thread) : Prop where
  stuck : ∀ tid, (config.locals tid).Finished ∨ Asleep config tid
  sleeper : ∃ tid, Asleep config tid ∧ Satisfied config tid

instance (thread : Thread) : Decidable thread.Finished :=
  inferInstanceAs (Decidable (thread.calls = []))

instance (config : Threads ι (Shared S R ι) Thread) (tid : ι) : Decidable (Satisfied config tid) :=
  inferInstanceAs (Decidable (Thread.Satisfied _ _ _))

instance (config : Threads ι (Shared S R ι) Thread) (tid : ι) : Decidable (Asleep config tid) :=
  inferInstanceAs (Decidable (_ ∧ _))

instance [Fintype ι] (config : Threads ι (Shared S R ι) Thread) : Decidable (LostWakeup config) :=
  decidable_of_iff ((∀ tid, (config.locals tid).Finished ∨ Asleep config tid) ∧
    ∃ tid, Asleep config tid ∧ Satisfied config tid)
    ⟨fun both => ⟨both.1, both.2⟩, fun lost => ⟨lost.stuck, lost.sleeper⟩⟩

/-- Calls without a timeout whose argument is within the bound and which ask
for at least one waiter to be woken. -/
def Blocking (max : U32) (call : Call) : Prop :=
  call.v.toNat ≤ (max &&& ~~~WAITER).toNat ∧ 1 ≤ call.wake.toNat ∧ call.timeout = none

theorem Blocking.smallCall {max : U32} {call : Call} (blocking : Blocking max call) :
    SmallCall call :=
  Nat.le_of_lt_succ (blocking.1.trans_lt (amountOf_lt max))

/-! ## The defect -/

/-- Two consumers and a producer that makes two calls, with `wake = 1`. -/
def twoConsumers : Fin 3 → List Call
  | 0 | 1 => [consume 1 1 none]
  | 2 => [produce 1 1 none, produce 1 1 none]

/-- Both consumers fall asleep; the first `produce` wakes one of them, which
takes the token; the second `produce` finds no `WAITER` bit. -/
def lostWakeupRun : List (Fin 3 × Action (Fin 3)) :=
  let run := fun tid => (tid, (⟨0, .run⟩ : Action (Fin 3)))
  List.replicate 4 (run 0) ++ List.replicate 3 (run 1) ++ List.replicate 4 (run 2) ++
    [(2, ⟨0, .wake [1]⟩), run 2] ++ List.replicate 7 (run 0) ++ List.replicate 3 (run 2)

/-- The claim that no wakeup is lost is false. -/
theorem lost_wakeup_reachable :
    ¬ ∀ config : Threads (Fin 3) (Shared 256 1024 (Fin 3)) Thread,
      (threadSystem 256 1024 (Fin 3) 10 (Blocking 10)).Reachable config →
        ¬ LostWakeup config := by
  intro claim
  have initial : (threadSystem 256 1024 (Fin 3) 10 (Blocking 10)).init
      (start 256 1024 10 twoConsumers) := by
    apply start_init
    simp only [Blocking]
    decide
  obtain ⟨config, reachable, lost⟩ := System.exists_reachable_of_exec lostWakeupRun
    (fun config => decide (LostWakeup config)) initial (by decide)
  exact claim config reachable (of_decide_eq_true lost)

/-! ## Runs that forget nobody -/

/-- A `FUTEX_WAKE` may leave a thread in the queue only if that thread remains
covered: another waker is outstanding, or the word is flagged and does not
satisfy the thread. -/
def ForgetsNobody (config : Threads ι (Shared S R ι) Thread) (action : ι × Action ι) : Prop :=
  ∀ remaining, action.2.choice = .wake remaining → ∀ tid ∈ remaining,
    (hasWaiter config.shared.sem.count = true ∧ ¬ Satisfied config tid) ∨
      ∃ waker, waker ≠ action.1 ∧ (config.locals waker).pc.stage = .waking

/-- The choice is not a `FUTEX_WAKE` that leaves somebody in the queue. -/
def Choice.wakesAll : Choice ι → Bool
  | .wake remaining => remaining.isEmpty
  | _ => true

omit [DecidableEq ι] in
/-- Waking the whole queue forgets nobody. -/
theorem forgetsNobody_of_wakesAll {config : Threads ι (Shared S R ι) Thread}
    {action : ι × Action ι} (wakesAll : action.2.choice.wakesAll = true) :
    ForgetsNobody config action := by
  intro remaining choiceEq tid left
  rw [choiceEq, Choice.wakesAll, List.isEmpty_iff] at wakesAll
  rw [wakesAll] at left
  contradiction

/-- Every queued thread is covered. -/
structure Covered (config : Threads ι (Shared S R ι) Thread) : Prop where
  queued : ∀ tid ∈ config.shared.sem.queue, (config.locals tid).pc.stage = .asleep
  nodup : config.shared.sem.queue.Nodup
  finished : ∀ tid, (config.locals tid).Finished → (config.locals tid).pc.stage = .trying
  cover : ∀ tid ∈ config.shared.sem.queue,
    (hasWaiter config.shared.sem.count = true ∧ ¬ Satisfied config tid) ∨
      ∃ waker, (config.locals waker).pc.stage = .waking

theorem Thread.satisfied_congr {thread thread' : Thread} (same : thread.calls = thread'.calls)
    (max amount : Nat) : thread.Satisfied max amount ↔ thread'.Satisfied max amount := by
  unfold Thread.Satisfied
  rw [same]

/-- A refused call is not satisfied. -/
theorem Thread.not_satisfied {thread : Thread} {call : Call} {rest : List Call}
    (callsEq : thread.calls = call :: rest) {max cur : U32} (small : SmallCall call)
    (refused : call.op.admits max call.v (amountOf cur) = false) :
    ¬ thread.Satisfied max.toNat (amountOf cur).toNat := by
  unfold Thread.Satisfied
  rw [callsEq]
  intro satisfied
  rw [(Op.admits_iff (amountOf_add_lt cur small)).mpr satisfied] at refused
  contradiction

/-- Retiring a returned call keeps the cover. -/
theorem Covered.retire {config : Threads ι (Shared S R ι) Thread} (covered : Covered config)
    {tid : ι} {result : Bool} (returned : (config.locals tid).pc = .returned result)
    (clock completed : Nat) (log : List (Entry ι)) (rest : List Call) :
    Covered (⟨⟨clock, config.shared.sem, log⟩,
      Function.update config.locals tid ⟨rest, .load, completed⟩⟩ :
        Threads ι (Shared S R ι) Thread) := by
  have other : ∀ j ∈ config.shared.sem.queue, j ≠ tid := by
    rintro j member rfl
    have asleep := covered.queued j member
    rw [returned] at asleep
    contradiction
  refine ⟨fun j member => ?_, covered.nodup, fun j finished => ?_, fun j member => ?_⟩
  · simpa [other j member] using covered.queued j member
  · by_cases same : j = tid
    · subst same
      simp [Pc.stage]
    · simpa [same] using covered.finished j (by simpa [same] using finished)
  · rcases covered.cover j member with ⟨flagged, unsatisfied⟩ | ⟨waker, waking⟩
    · left
      refine ⟨flagged, ?_⟩
      simpa [Satisfied, other j member] using unsatisfied
    · right
      have differs : waker ≠ tid := by
        rintro rfl
        rw [returned] at waking
        contradiction
      exact ⟨waker, by simpa [differs] using waking⟩

/-- What a step of `tid` must respect to keep the cover: it is still making the
same call, and each thread queued afterwards was queued before and stays
covered, or is `tid` itself, refused by a flagged word. -/
theorem Covered.update {config : Threads ι (Shared S R ι) Thread} (covered : Covered config)
    {tid : ι} {call : Call} {rest : List Call} {semNext : Semaphore S R ι} {next : Pc}
    (callsEq : (config.locals tid).calls = call :: rest) (nodup : semNext.queue.Nodup)
    (queued : ∀ j ∈ semNext.queue,
      (j ≠ tid ∧ j ∈ config.shared.sem.queue) ∨ (j = tid ∧ next.stage = .asleep))
    (cover : ∀ j ∈ semNext.queue,
      (hasWaiter semNext.count = true ∧
          ¬ (config.locals j).Satisfied semNext.max.toNat (amountOf semNext.count).toNat) ∨
        next.stage = .waking ∨ ∃ waker, waker ≠ tid ∧ (config.locals waker).pc.stage = .waking)
    (clock completed : Nat) (log : List (Entry ι)) :
    Covered (⟨⟨clock, semNext, log⟩,
      Function.update config.locals tid ⟨call :: rest, next, completed⟩⟩ :
        Threads ι (Shared S R ι) Thread) := by
  refine ⟨fun j member => ?_, nodup, fun j finished => ?_, fun j member => ?_⟩
  · rcases queued j member with ⟨differs, before⟩ | ⟨rfl, asleep⟩
    · simpa [differs] using covered.queued j before
    · simpa using asleep
  · by_cases same : j = tid
    · subst same
      simp [Thread.Finished] at finished
    · simpa [same] using covered.finished j (by simpa [same] using finished)
  · have calls : (Function.update config.locals tid ⟨call :: rest, next, completed⟩ j).calls =
        (config.locals j).calls := by
      by_cases same : j = tid
      · subst same
        simp [callsEq]
      · simp [same]
    rcases cover j member with ⟨flagged, unsatisfied⟩ | waking | ⟨waker, differs, waking⟩
    · exact Or.inl ⟨flagged, fun satisfied =>
        unsatisfied ((Thread.satisfied_congr calls _ _).mp satisfied)⟩
    · exact Or.inr ⟨tid, by simpa using waking⟩
    · exact Or.inr ⟨waker, by simpa [differs] using waking⟩

/-- A step of a call keeps the cover, provided a `FUTEX_WAKE` forgets nobody. -/
theorem Covered.of_effect {config : Threads ι (Shared S R ι) Thread} (covered : Covered config)
    {tid : ι} {call : Call} {rest : List Call} {semNext : Semaphore S R ι} {next : Pc}
    {event : Option Event} (callsEq : (config.locals tid).calls = call :: rest)
    (small : SmallCall call)
    (forgetsNobody : ∀ j ∈ semNext.queue, (config.locals tid).pc.stage = .waking →
      next.stage = .returned true →
      (hasWaiter config.shared.sem.count = true ∧ ¬ Satisfied config j) ∨
        ∃ waker, waker ≠ tid ∧ (config.locals waker).pc.stage = .waking)
    (effect : Effect call tid config.shared.sem (config.locals tid).pc semNext next event)
    (clock completed : Nat) (log : List (Entry ι)) :
    Covered (⟨⟨clock, semNext, log⟩,
      Function.update config.locals tid ⟨call :: rest, next, completed⟩⟩ :
        Threads ι (Shared S R ι) Thread) := by
  -- a thread that is not asleep is not in the queue
  have awake : (config.locals tid).pc.stage ≠ .asleep → ∀ j ∈ config.shared.sem.queue, j ≠ tid := by
    rintro notAsleep j member rfl
    exact notAsleep (covered.queued j member)
  -- an old waker is still one unless it is the acting thread
  have others : (config.locals tid).pc.stage ≠ .waking → ∀ j ∈ config.shared.sem.queue,
      (hasWaiter config.shared.sem.count = true ∧ ¬ Satisfied config j) ∨
        next.stage = .waking ∨
          ∃ waker, waker ≠ tid ∧ (config.locals waker).pc.stage = .waking := by
    rintro notWaking j member
    rcases covered.cover j member with left | ⟨waker, waking⟩
    · exact Or.inl left
    · refine Or.inr (Or.inr ⟨waker, ?_, waking⟩)
      rintro rfl
      exact notWaking waking
  have erased : ∀ j ∈ config.shared.sem.queue.erase tid, j ≠ tid ∧ j ∈ config.shared.sem.queue :=
    fun j member => (covered.nodup.mem_erase_iff).mp member
  cases effect with
  | retry before _ _ =>
      refine covered.update callsEq covered.nodup ?_ (others (by simp [before])) _ _ _
      exact fun j member => Or.inl ⟨awake (by simp [before]) j member, member⟩
  | arm before _ _ _ =>
      refine covered.update callsEq ?_ ?_ ?_ _ _ _
      · exact covered.nodup
      · exact fun j member => Or.inl ⟨awake (by simp [before]) j member, member⟩
      · intro j member
        rcases others (by simp [before]) j member with ⟨_, unsatisfied⟩ | right
        · exact Or.inl ⟨hasWaiter_withWaiter _, by simpa [Satisfied] using unsatisfied⟩
        · exact Or.inr right
  | commit before after _ =>
      refine covered.update callsEq ?_ ?_ ?_ _ _ _
      · exact covered.nodup
      · exact fun j member => Or.inl ⟨awake (by simp [before]) j member, member⟩
      · intro j member
        by_cases flagged : hasWaiter config.shared.sem.count = true
        · exact Or.inr (Or.inl (by rw [after, if_pos flagged]))
        · rcases others (by simp [before]) j member with ⟨set, _⟩ | right
          · exact absurd set flagged
          · exact Or.inr right
  | enqueue before after _ flagged refused =>
      have fresh : tid ∉ config.shared.sem.queue :=
        fun member => awake (by simp [before]) tid member rfl
      refine covered.update callsEq ?_ ?_ ?_ _ _ _
      · exact covered.nodup.append (List.nodup_singleton tid) (by simpa using fresh)
      · intro j member
        rcases List.mem_append.mp member with old | new
        · exact Or.inl ⟨awake (by simp [before]) j old, old⟩
        · exact Or.inr ⟨by simpa using new, after⟩
      · intro j member
        rcases List.mem_append.mp member with old | new
        · exact others (by simp [before]) j old
        · cases List.mem_singleton.mp new
          exact Or.inl ⟨flagged, Thread.not_satisfied callsEq small refused⟩
  | resume before _ _ absent =>
      refine covered.update callsEq covered.nodup ?_ (others (by simp [before])) _ _ _
      intro j member
      exact Or.inl ⟨fun same => absent (same ▸ member), member⟩
  | interrupt before _ _ _ =>
      refine covered.update callsEq (covered.nodup.erase tid) ?_ ?_ _ _ _
      · exact fun j member => Or.inl (erased j member)
      · exact fun j member => others (by simp [before]) j (erased j member).2
  | expire before _ _ _ _ =>
      refine covered.update callsEq (covered.nodup.erase tid) ?_ ?_ _ _ _
      · exact fun j member => Or.inl (erased j member)
      · exact fun j member => others (by simp [before]) j (erased j member).2
  | measure before after _ =>
      refine covered.update callsEq ?_ ?_ ?_ _ _ _
      · exact covered.nodup
      · exact fun j member => Or.inl ⟨awake (by simp [before]) j member, member⟩
      · exact fun j member => Or.inr (Or.inl after)
  | notify before after _ sublist _ =>
      refine covered.update callsEq (covered.nodup.sublist sublist) ?_ ?_ _ _ _
      · intro j member
        have old := sublist.subset member
        exact Or.inl ⟨awake (by simp [before]) j old, old⟩
      · intro j member
        exact (forgetsNobody j member before after).imp_right Or.inr

theorem covered_of_reachable {max : U32} {config : Threads ι (Shared S R ι) Thread}
    (reachable : (threadSystem S R ι max SmallCall).ReachableUnder ForgetsNobody config) :
    Covered config := by
  refine System.ReachableUnder.invariant Covered ?_ ?_ reachable
  · rintro config ⟨⟨readings, _, semEq, _⟩, localInit⟩
    have empty : config.shared.sem.queue = [] := by
      rw [semEq]
      rfl
    refine ⟨?_, by rw [empty]; exact List.nodup_nil, ?_, ?_⟩
    · rw [empty]
      simp
    · intro tid _
      rw [(localInit tid).2.1]
      rfl
    · rw [empty]
      simp
  · rintro config ⟨tid, action⟩ next before forgetsNobody step covered
    obtain ⟨balanced, accounted⟩ := accounts_of_reachable before.reachable
    obtain ⟨shared, localNext, threadStep, rfl⟩ := Program.system_step_eq_some_iff.mp step
    obtain ⟨call, rest, callsEq, cases⟩ := Thread.step_cases threadStep
    rcases cases with ⟨result, returned, rfl, rfl⟩ | ⟨out, callStep, rfl, rfl⟩
    · exact covered.retire returned _ _ _ _
    · have valid := (accounted tid).valid call rest callsEq
      rw [← balanced.max_eq] at valid
      have small := (accounted tid).small call (by rw [callsEq]; simp)
      refine covered.of_effect callsEq small ?_ (Call.effect_of_step valid callStep).1 _ _ _
      intro j member waking returned
      obtain ⟨remaining, choiceEq, queueEq⟩ := Call.notify_of_returned callStep waking returned
      exact forgetsNobody remaining choiceEq j (by rwa [queueEq] at member)

/-- In a run whose `FUTEX_WAKE`s forget nobody, no wakeup is lost: whenever
nobody can run, every sleeping thread is right to sleep. -/
theorem no_lost_wakeup (max : U32) (config : Threads ι (Shared S R ι) Thread)
    (reachable :
      (threadSystem S R ι max (Blocking max)).ReachableUnder ForgetsNobody config) :
    ¬ LostWakeup config := by
  rintro ⟨stuck, tid, asleep, satisfied⟩
  have covered := covered_of_reachable (threadSystem_mono (fun _ => Blocking.smallCall) reachable)
  rcases covered.cover tid asleep.2 with ⟨_, unsatisfied⟩ | ⟨waker, waking⟩
  · exact unsatisfied satisfied
  · rcases stuck waker with finished | wakerAsleep
    · rw [covered.finished waker finished] at waking
      contradiction
    · rw [wakerAsleep.1] at waking
      contradiction

/-- One consumer blocks and the only other thread produces for it. -/
def blockedConsumer : Fin 2 → List Call
  | 0 => [consume 5 1 none]
  | 1 => [produce 5 1 none]

/-- The consumer falls asleep, the producer wakes it, and both return. -/
def blockedConsumerRun : List (Fin 2 × Action (Fin 2)) :=
  let run := fun tid => (tid, (⟨0, .run⟩ : Action (Fin 2)))
  List.replicate 4 (run 0) ++ List.replicate 4 (run 1) ++ [(1, ⟨0, .wake []⟩), run 1] ++
    List.replicate 7 (run 0)

theorem no_lost_wakeup_blocking :
    ∃ config, (threadSystem 256 1024 (Fin 2) 10 (Blocking 10)).exec
        (start 256 1024 10 blockedConsumer) blockedConsumerRun = some config ∧
      ¬ LostWakeup config := by
  have initial : (threadSystem 256 1024 (Fin 2) 10 (Blocking 10)).init
      (start 256 1024 10 blockedConsumer) := by
    apply start_init
    simp only [Blocking]
    decide
  obtain ⟨config, run, _⟩ :=
    System.exists_exec_of_isSome blockedConsumerRun initial (by decide)
  have wakesAll : ∀ action ∈ blockedConsumerRun, action.2.choice.wakesAll = true := by
    decide
  refine ⟨config, run, no_lost_wakeup 10 config ?_⟩
  apply System.ReachableUnder.of_exec (.init initial) _ run
  exact fun config action member => forgetsNobody_of_wakesAll (wakesAll action member)

end Schtest.Semaphore
