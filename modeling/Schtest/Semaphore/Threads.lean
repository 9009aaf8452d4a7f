import Schtest.Semaphore.Effect
import Schtest.Transition.Interleaving

/-!
# Threads calling one semaphore

Every thread performs its own list of calls, one atomic step at a time.  The
log records, newest first, the events of all threads with the call and the
instant they belong to; no step reads it.  Time passes between steps: each
action says how many nanoseconds elapse before it takes place.
-/

namespace Schtest.Semaphore

open Schtest.Transition

universe u

/-- A thread: the calls it still has to make, the first of which is in
progress, and how many calls have returned. -/
structure Thread where
  calls : List Call
  pc : Pc
  completed : Nat
  deriving DecidableEq, Repr

/-- One event, with the thread, the number of its call, and the instant. -/
structure Entry (ι : Type u) where
  thread : ι
  index : Nat
  call : Call
  time : Nat
  event : Event
  deriving DecidableEq, Repr

/-- What the threads share. -/
structure Shared (S R : Nat) (ι : Type u) where
  clock : Nat
  sem : Semaphore S R ι
  log : List (Entry ι)

/-- One step: the time that passes first, and the environment's choice. -/
structure Action (ι : Type u) where
  delay : Nat
  choice : Choice ι
  deriving DecidableEq, Repr

/-- Prepend the event of a step, if it has one, to the log. -/
def record {ι : Type u} (tid : ι) (index : Nat) (call : Call) (now : Nat) (event : Option Event)
    (log : List (Entry ι)) : List (Entry ι) :=
  event.toList.map (fun event => ⟨tid, index, call, now, event⟩) ++ log

@[simp]
theorem record_none {ι : Type u} (tid : ι) (index : Nat) (call : Call) (now : Nat)
    (log : List (Entry ι)) : record tid index call now none log = log :=
  rfl

@[simp]
theorem record_some {ι : Type u} (tid : ι) (index : Nat) (call : Call) (now : Nat)
    (event : Event) (log : List (Entry ι)) :
    record tid index call now (some event) log = ⟨tid, index, call, now, event⟩ :: log :=
  rfl

theorem mem_record {ι : Type u} {tid : ι} {index : Nat} {call : Call} {now : Nat}
    {event : Option Event} {log : List (Entry ι)} {entry : Entry ι} :
    entry ∈ record tid index call now event log ↔
      (∃ happened, event = some happened ∧ entry = ⟨tid, index, call, now, happened⟩) ∨
        entry ∈ log := by
  cases event with
  | none => simp
  | some event => simp

variable {S R : Nat} {ι : Type u} [DecidableEq ι]

/-- One step of a thread.  A call that has returned gives way to the next. -/
def Thread.step (tid : ι) (shared : Shared S R ι) (thread : Thread) (action : Action ι) :
    Option (Shared S R ι × Thread) :=
  match thread.calls with
  | [] => none
  | call :: rest =>
      let now := shared.clock + action.delay
      match thread.pc with
      | .returned result =>
          some (⟨now, shared.sem,
              record tid thread.completed call now (some (.returned result)) shared.log⟩,
            ⟨rest, .load, thread.completed + 1⟩)
      | pc =>
          (call.step now tid shared.sem pc action.choice).map fun out =>
            (⟨now, out.sem, record tid thread.completed call now out.event shared.log⟩,
              { thread with pc := out.pc })

/-- Any number of threads, each making any list of calls accepted by `allowed`,
on a semaphore created by `Semaphore::new(max)`. -/
def threadProgram (S R : Nat) (max : U32) (allowed : Call → Prop) :
    Program ι (Shared S R ι) Thread (Action ι) where
  initShared shared :=
    ∃ readings : Fin S → Nat × Nat,
      (∀ slot, (readings slot).1 ≤ (readings slot).2 ∧ (readings slot).2 ≤ shared.clock) ∧
        shared.sem = new max readings ∧ shared.log = []
  initLocal _ thread :=
    (∀ call ∈ thread.calls, allowed call) ∧ thread.pc = .load ∧ thread.completed = 0
  step := Thread.step

/-- The system of all interleavings of such threads. -/
abbrev threadSystem (S R : Nat) (ι : Type u) [DecidableEq ι] (max : U32) (allowed : Call → Prop) :
    System (Threads ι (Shared S R ι) Thread) (ι × Action ι) :=
  (threadProgram S R max allowed).system

/-- Runs of threads with fewer calls allowed are runs of threads with more. -/
theorem threadSystem_mono {max : U32} {allowed allowed' : Call → Prop}
    (more : ∀ call, allowed call → allowed' call)
    {ok : Threads ι (Shared S R ι) Thread → ι × Action ι → Prop}
    {config : Threads ι (Shared S R ι) Thread}
    (reachable : (threadSystem S R ι max allowed).ReachableUnder ok config) :
    (threadSystem S R ι max allowed').ReachableUnder ok config := by
  induction reachable with
  | init initial =>
      obtain ⟨sharedInit, localInit⟩ := initial
      refine .init ⟨sharedInit, fun tid => ?_⟩
      obtain ⟨calls, fresh⟩ := localInit tid
      exact ⟨fun call member => more call (calls call member), fresh⟩
  | step _ allowed step ih => exact .step ih allowed step

/-- The configuration in which every thread is about to make its calls on a
fresh semaphore, at instant 0. -/
def start (S R : Nat) {ι : Type u} (max : U32) (calls : ι → List Call) :
    Threads ι (Shared S R ι) Thread where
  shared := ⟨0, new max fun _ => (0, 0), []⟩
  locals tid := ⟨calls tid, .load, 0⟩

theorem start_init {max : U32} {allowed : Call → Prop} {calls : ι → List Call}
    (accepted : ∀ tid, ∀ call ∈ calls tid, allowed call) :
    (threadSystem S R ι max allowed).init (start S R max calls) :=
  ⟨⟨fun _ => (0, 0), fun _ => ⟨le_refl _, le_refl _⟩, rfl, rfl⟩,
    fun tid => ⟨accepted tid, rfl, rfl⟩⟩

/-- Inversion of a thread's step: it retires a returned call, or it is a step
of the call in progress. -/
theorem Thread.step_cases {tid : ι} {shared sharedNext : Shared S R ι} {thread next : Thread}
    {action : Action ι} (step : thread.step tid shared action = some (sharedNext, next)) :
    ∃ call rest, thread.calls = call :: rest ∧
      ((∃ result, thread.pc = .returned result ∧ next = ⟨rest, .load, thread.completed + 1⟩ ∧
          sharedNext = ⟨shared.clock + action.delay, shared.sem,
            record tid thread.completed call (shared.clock + action.delay)
              (some (.returned result)) shared.log⟩) ∨
        ∃ out, call.step (shared.clock + action.delay) tid shared.sem thread.pc action.choice =
            some out ∧ next = ⟨call :: rest, out.pc, thread.completed⟩ ∧
          sharedNext = ⟨shared.clock + action.delay, out.sem,
            record tid thread.completed call (shared.clock + action.delay) out.event
              shared.log⟩) := by
  obtain ⟨calls, pc, completed⟩ := thread
  unfold Thread.step at step
  cases calls with
  | nil => contradiction
  | cons call rest =>
      refine ⟨call, rest, rfl, ?_⟩
      dsimp only at step
      split at step
      · rename_i result
        cases step
        exact Or.inl ⟨result, rfl, rfl, rfl⟩
      · obtain ⟨out, callStep, result⟩ := Option.map_eq_some_iff.mp step
        cases result
        exact Or.inr ⟨out, callStep, rfl, rfl⟩

/-- The call a thread is making has loaded words that its branches justify. -/
def Thread.Valid (max : U32) (thread : Thread) : Prop :=
  ∀ call rest, thread.calls = call :: rest → thread.pc.Valid call max

theorem Thread.Valid.of_load {max : U32} {thread : Thread} (fresh : thread.pc = .load) :
    thread.Valid max := by
  intro call rest _
  rw [fresh]
  trivial

/-- No step changes the bound, and steps keep their own thread valid. -/
theorem Thread.step_valid {tid : ι} {shared sharedNext : Shared S R ι} {thread next : Thread}
    {action : Action ι} (valid : thread.Valid shared.sem.max)
    (step : thread.step tid shared action = some (sharedNext, next)) :
    sharedNext.sem.max = shared.sem.max ∧ next.Valid shared.sem.max := by
  obtain ⟨call, rest, callsEq, cases⟩ := Thread.step_cases step
  rcases cases with ⟨result, _, rfl, rfl⟩ | ⟨out, callStep, rfl, rfl⟩
  · exact ⟨rfl, .of_load rfl⟩
  · obtain ⟨effect, validNext⟩ := Call.effect_of_step (valid call rest callsEq) callStep
    refine ⟨effect.max_eq, ?_⟩
    intro other otherRest otherEq
    cases otherEq
    exact validNext

end Schtest.Semaphore
