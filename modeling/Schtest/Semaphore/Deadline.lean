import Schtest.Semaphore.Threads

/-!
# Timeouts

A timeout is relative and each `FUTEX_WAIT` of a call passes it unchanged, so a
call that waits again after it has slept may wait for longer than its timeout.
How long a call has slept is read off the log.
-/

namespace Schtest.Semaphore

open Schtest.Transition

universe u

variable {S R : Nat} {ι : Type u} [DecidableEq ι]

/-! ## How long a call has slept -/

/-- The entry belongs to the `index`-th call of a thread. -/
def Entry.isOf (tid : ι) (index : Nat) (entry : Entry ι) : Bool :=
  decide (entry.thread = tid ∧ entry.index = index)

/-- The event is a `FUTEX_WAIT`. -/
def Event.isFutexWait : Event → Bool
  | .futexWait _ => true
  | _ => false

/-- The instant of the newest `FUTEX_WAIT` of a call. -/
def waitingSince (tid : ι) (index : Nat) (log : List (Entry ι)) : Nat :=
  ((log.find? fun entry => entry.isOf tid index && entry.event.isFutexWait).map Entry.time).getD 0

/-- The time that a call has slept in the `FUTEX_WAIT`s it has left. -/
def slept (tid : ι) (index : Nat) : List (Entry ι) → Nat
  | [] => 0
  | entry :: older =>
      if entry.isOf tid index && entry.event == .awoke then
        entry.time - waitingSince tid index older + slept tid index older
      else slept tid index older

/-- A `FUTEX_WAIT` with a timeout: what it passes and what the call has slept are at most the
timeout of the call. -/
def InBudget (timeout passed : Option Nat) (slept : Nat) : Prop :=
  ∀ d, timeout = some d → ∃ relative, passed = some relative ∧ relative + slept ≤ d

/-- The budget is kept at every `FUTEX_WAIT` in the log. -/
def BudgetKept (log : List (Entry ι)) : Prop :=
  ∀ newer entry older passed, log = newer ++ entry :: older → entry.event = .futexWait passed →
    InBudget entry.call.timeout passed (slept entry.thread entry.index older)

theorem BudgetKept.cons {entry : Entry ι} {log : List (Entry ι)} (kept : BudgetKept log)
    (head : ∀ passed, entry.event = .futexWait passed →
      InBudget entry.call.timeout passed (slept entry.thread entry.index log)) :
    BudgetKept (entry :: log) := by
  intro newer wait older passed split waits
  cases newer with
  | nil =>
      cases split
      exact head passed waits
  | cons first newer =>
      rw [List.cons_append, List.cons.injEq] at split
      exact kept newer wait older passed split.2 waits

/-! ## What a wait passes -/

/-- The call of a thread that is about to issue a `FUTEX_WAIT`. -/
def Thread.Waits (thread : Thread) (call : Call) : Prop :=
  ∃ rest cur cookie, thread.calls = call :: rest ∧ thread.pc = .wait cur cookie

/-- What a step of a thread adds to the log about waits. -/
theorem Thread.step_log {tid : ι} {shared sharedNext : Shared S R ι} {thread next : Thread}
    {action : Action ι} (step : thread.step tid shared action = some (sharedNext, next)) :
    ∃ call now event, sharedNext.log = record tid thread.completed call now event shared.log ∧
      ∀ passed, event = some (.futexWait passed) →
        passed = call.timeout ∧ thread.Waits call := by
  obtain ⟨call, rest, callsEq, ⟨result, _, _, rfl⟩ | ⟨out, callStep, _, rfl⟩⟩ :=
    Thread.step_cases step
  · exact ⟨call, _, _, rfl, fun passed waits => by simp at waits⟩
  · constructor
    constructor
    constructor
    constructor
    · rfl
    · intro passed waits
      obtain ⟨same, cur, cookie, atWait⟩ := Call.source_of_step callStep waits
      exact ⟨same, rest, cur, cookie, callsEq, atWait⟩

/-- Every logged `FUTEX_WAIT` has passed the timeout of its call. -/
def PassesTimeouts (log : List (Entry ι)) : Prop :=
  ∀ entry ∈ log, ∀ passed, entry.event = .futexWait passed → passed = entry.call.timeout

theorem passesTimeouts_of_reachable {max : U32} {config : Threads ι (Shared S R ι) Thread}
    (reachable : (threadSystem S R ι max fun _ => True).Reachable config) :
    PassesTimeouts config.shared.log := by
  apply System.Reachable.invariant (fun config => PassesTimeouts config.shared.log) _ _ reachable
  · rintro config ⟨⟨_, _, _, logEq⟩, _⟩ entry member
    rw [logEq] at member
    contradiction
  · rintro config ⟨tid, action⟩ next _ step passes entry member passed waits
    obtain ⟨shared, localNext, threadStep, rfl⟩ := Program.system_step_eq_some_iff.mp step
    obtain ⟨call, now, event, logEq, timeouts⟩ := Thread.step_log threadStep
    rw [logEq] at member
    rcases mem_record.mp member with ⟨happened, rfl, rfl⟩ | old
    · exact (timeouts passed (congrArg some waits)).1
    · exact passes entry old passed waits

/-! ## Runs whose waits are fresh -/

/-- A call with a timeout that is about to issue a `FUTEX_WAIT` has not slept yet. -/
def FreshWait (config : Threads ι (Shared S R ι) Thread) (action : ι × Action ι) : Prop :=
  ∀ call, (config.locals action.1).Waits call → call.timeout.isSome →
    slept action.1 (config.locals action.1).completed config.shared.log = 0

/-- Whether the wait is fresh, by the state of the acting thread. -/
def freshWait (config : Threads ι (Shared S R ι) Thread) (action : ι × Action ι) : Bool :=
  match (config.locals action.1).calls, (config.locals action.1).pc with
  | call :: _, .wait _ _ =>
      decide (call.timeout.isSome →
        slept action.1 (config.locals action.1).completed config.shared.log = 0)
  | _, _ => true

theorem freshWait_iff {config : Threads ι (Shared S R ι) Thread} {action : ι × Action ι} :
    freshWait config action = true ↔ FreshWait config action := by
  unfold freshWait FreshWait
  split
  · rename_i call rest cur cookie callsEq pcEq
    rw [decide_eq_true_iff]
    constructor
    · rintro fresh other ⟨_, _, _, sameCalls, _⟩ timed
      rw [callsEq] at sameCalls
      cases sameCalls
      exact fresh timed
    · exact fun fresh timed => fresh call ⟨rest, cur, cookie, callsEq, pcEq⟩ timed
  · rename_i notWaiting
    constructor
    · rintro _ call ⟨rest, cur, cookie, callsEq, pcEq⟩ _
      exact absurd pcEq (notWaiting call rest cur cookie callsEq)
    · exact fun _ => rfl

instance (config : Threads ι (Shared S R ι) Thread) (action : ι × Action ι) :
    Decidable (FreshWait config action) :=
  decidable_of_iff _ freshWait_iff

/-- The whole timeout is passed, so that nothing of it may have been slept. -/
theorem inBudget_iff {d : Nat} {slept : Nat} :
    InBudget (some d) (some d) slept ↔ slept = 0 := by
  constructor
  · intro inBudget
    obtain ⟨relative, passed, within⟩ := inBudget d rfl
    cases passed
    omega
  · rintro rfl other same
    cases same
    exact ⟨d, rfl, le_refl d⟩

theorem budgetKept_of_reachable {max : U32} {config : Threads ι (Shared S R ι) Thread}
    (reachable : (threadSystem S R ι max fun _ => True).ReachableUnder FreshWait config) :
    BudgetKept config.shared.log := by
  apply System.ReachableUnder.invariant (fun config => BudgetKept config.shared.log) _ _ reachable
  · rintro config ⟨⟨_, _, _, logEq⟩, _⟩ newer entry older passed split
    rw [logEq] at split
    simp at split
  · rintro config ⟨tid, action⟩ next _ fresh step kept
    obtain ⟨shared, localNext, threadStep, rfl⟩ := Program.system_step_eq_some_iff.mp step
    obtain ⟨call, now, event, logEq, timeouts⟩ := Thread.step_log threadStep
    simp only [logEq]
    cases event with
    | none => exact kept
    | some event =>
        apply kept.cons
        intro passed waits
        obtain ⟨rfl, waiting⟩ := timeouts passed (congrArg some waits)
        intro d timed
        have unslept := fresh call waiting (by rw [timed]; rfl)
        rw [unslept]
        exact ⟨d, timed, le_refl d⟩

/-- A `FUTEX_WAIT` keeps the budget of its call exactly when the call has not slept before, and
runs in which every wait of a call with a timeout is such keep all budgets. -/
theorem timeout_budget (max : U32) :
    (∀ config : Threads ι (Shared S R ι) Thread,
      (threadSystem S R ι max fun _ => True).Reachable config →
        ∀ newer entry older passed d, config.shared.log = newer ++ entry :: older →
          entry.event = .futexWait passed → entry.call.timeout = some d →
            (InBudget (some d) passed (slept entry.thread entry.index older) ↔
              slept entry.thread entry.index older = 0)) ∧
    ∀ config : Threads ι (Shared S R ι) Thread,
      (threadSystem S R ι max fun _ => True).ReachableUnder FreshWait config →
        BudgetKept config.shared.log := by
  constructor
  · intro config reachable newer entry older passed d split waits timed
    have member : entry ∈ config.shared.log := by
      rw [split]
      exact List.mem_append_right _ List.mem_cons_self
    have same := passesTimeouts_of_reachable reachable entry member passed waits
    rw [same, timed, inBudget_iff]
  · exact fun config reachable => budgetKept_of_reachable reachable

/-! ## Waits that are repeated -/

/-- One consumer with a timeout of ten nanoseconds. -/
def timedConsumer : Fin 1 → List Call
  | 0 => [consume 1 1 (some 10)]

/-- It is interrupted at once, and waits again. -/
def promptRun : List (Fin 1 × Action (Fin 1)) :=
  List.replicate 4 (0, ⟨0, .run⟩) ++ [(0, ⟨0, .fail⟩)] ++ List.replicate 3 (0, ⟨0, .run⟩)

theorem timeout_budget_prompt :
    ∃ config, (threadSystem 256 1024 (Fin 1) 10 fun _ => True).execUnder FreshWait
        (start 256 1024 10 timedConsumer) promptRun = some config ∧
      (∀ newer entry older passed d, config.shared.log = newer ++ entry :: older →
        entry.event = .futexWait passed → entry.call.timeout = some d →
          (InBudget (some d) passed (slept entry.thread entry.index older) ↔
            slept entry.thread entry.index older = 0)) ∧
      BudgetKept config.shared.log := by
  have initial : (threadSystem 256 1024 (Fin 1) 10 fun _ => True).init
      (start 256 1024 10 timedConsumer) := start_init fun _ _ _ => trivial
  obtain ⟨config, run, reachable⟩ :=
    System.exists_execUnder_of_isSome FreshWait promptRun initial (by decide)
  exact ⟨config, run, (timeout_budget 10).1 config reachable.reachable,
    (timeout_budget 10).2 config reachable⟩

/-- It is interrupted after nine nanoseconds, and waits again. -/
def interruptedRun : List (Fin 1 × Action (Fin 1)) :=
  List.replicate 4 (0, ⟨0, .run⟩) ++ [(0, ⟨9, .fail⟩)] ++ List.replicate 3 (0, ⟨0, .run⟩)

/-- The newest entry is a wait beyond the budget. -/
def endsBeyondBudget (config : Threads ι (Shared S R ι) Thread) : Bool :=
  match config.shared.log with
  | ⟨tid, index, call, _, .futexWait (some passed)⟩ :: older =>
      call.timeout.any fun d => decide (d < passed + slept tid index older)
  | _ => false

theorem not_budgetKept_of_endsBeyond {config : Threads ι (Shared S R ι) Thread}
    (beyond : endsBeyondBudget config = true) : ¬ BudgetKept config.shared.log := by
  intro kept
  unfold endsBeyondBudget at beyond
  split at beyond
  · rename_i tid index call time passed older logEq
    obtain ⟨d, timed, exceeded⟩ := (Option.any_eq_true _ _).mp beyond
    obtain ⟨relative, same, within⟩ := kept [] _ older _ logEq rfl d timed
    cases same
    have more := of_decide_eq_true exceeded
    simp only at within
    omega
  · contradiction

theorem budget_exceeded_reachable :
    ¬ ∀ config : Threads (Fin 1) (Shared 256 1024 (Fin 1)) Thread,
      (threadSystem 256 1024 (Fin 1) 10 fun _ => True).Reachable config →
        BudgetKept config.shared.log := by
  intro claim
  have initial : (threadSystem 256 1024 (Fin 1) 10 fun _ => True).init
      (start 256 1024 10 timedConsumer) := start_init fun _ _ _ => trivial
  obtain ⟨config, reachable, beyond⟩ := System.exists_reachable_of_exec interruptedRun
    endsBeyondBudget initial (by decide)
  exact not_budgetKept_of_endsBeyond beyond (claim config reachable)

end Schtest.Semaphore
