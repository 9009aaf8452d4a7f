import Schtest.Child.Reaping

/-!
# What calls on handles return

`alive`, `wait` and `kill` tell the truth about dead children, and a blocking
`wait` for a dead child returns after a bounded number of steps, in every run
that reaps no child behind the back of its handle.
-/

namespace Schtest.Child

open Schtest.Transition

universe u v

variable {ι : Type u} [DecidableEq ι] [Fintype ι] {Signal : Type v} [ToString Signal]
  {handled : ι → Bool} {family next : Family ι Signal} {action : Action ι Signal}
  {child : ι}

/-! ## Answers -/

/-- What the calls that have returned say about dead children. -/
structure Truthful (family : Family ι Signal) : Prop where
  /-- `alive` returns false when the child was dead before the call. -/
  alive : ∀ entry ∈ family.log, entry.call = .alive → entry.dead = true →
    entry.reply = .alive false
  /-- A blocking `wait` returns a result. -/
  wait : ∀ entry ∈ family.log, ∀ all, entry.call = .wait true all →
    ∃ result, entry.reply = .wait (some result)
  /-- No signal goes to a reaped process. -/
  kill : ∀ sent ∈ family.sent, sent.stray = false

theorem Truthful.of_effect (truthful : Truthful family) (attended : Attended handled family)
    (effect : Effect handled family action next) : Truthful next := by
  constructor
  case alive =>
    intro entry member call isDead
    rcases entry_of_effect effect member with before | ⟨result, _, reply⟩ |
      ⟨polls, waiting, noZombie, _⟩ | ⟨signal, _, kill, _⟩
    · exact truthful.alive entry before call isDead
    · rw [reply, call]
      rfl
    · -- the child is neither running, nor a zombie, nor reaped
      obtain ⟨_, _, terminated, _⟩ := attended.waiting waiting
      have notRunning := terminated isDead
      have notReaped := attended.not_reaped_of_waiting waiting
      cases state : (family.procs entry.child).state with
      | running => exact absurd state notRunning
      | zombie status => simp [state, ProcState.isZombie] at noZombie
      | reaped => exact absurd state notReaped
    · rw [call] at kill
      contradiction
  case wait =>
    intro entry member all call
    rcases entry_of_effect effect member with before | ⟨result, _, reply⟩ |
      ⟨_, _, _, noBlock, _⟩ | ⟨signal, _, kill, _⟩
    · exact truthful.wait entry before all call
    · exact ⟨result, by rw [reply, call]; rfl⟩
    · rw [call] at noBlock
      contradiction
    · rw [call] at kill
      contradiction
  case kill =>
    intro sent member
    rcases sent_of_effect effect member with before | ⟨signal, dead, signaling, stray⟩
    · exact truthful.kill sent before
    · rw [stray]
      exact Bool.eq_false_iff.mpr fun reaped =>
        attended.not_reaped_of_signaling signaling (ProcState.isReaped_iff.mp reaped)

/-! ## A blocking wait for a dead child -/

/-- The parent is in `wait(true, _)` for this child, which has terminated. -/
def Awaits (family : Family ι Signal) (child : ι) : Prop :=
  ∃ all dead, (∃ polls, family.parent = .wait child (.wait true all) dead polls ∧
      (family.procs child).state ≠ .running) ∨
    ∃ status buffer, family.parent = .read child (.wait true all) dead status buffer

/-- A step of the call itself, other than a `read` that is interrupted. -/
def Action.isCallStep : Action ι Signal → Bool
  | .waitpid _ => true
  | .read _ => true
  | _ => false

/-- A bound for the steps until the call returns. -/
def debt (family : Family ι Signal) : Nat :=
  match family.parent with
  | .wait child _ _ _ => unreaped family.procs + (family.procs child).pipe.length + 1
  | .read child _ _ _ _ => (family.procs child).pipe.length + 1
  | .idle => 0
  | .signal _ _ _ => 0

omit [Fintype ι] in
/-- The log only grows. -/
theorem log_length_of_effect (effect : Effect handled family action next) :
    family.log.length ≤ next.log.length := by
  cases effect with
  | cached _ _ _ => exact Family.log_length_finish family
  | findsNothing _ _ _ => exact Family.log_length_finish family
  | concludes _ _ => exact Family.log_length_finish (family.cache _ _)
  | signals _ => exact Nat.le_succ _
  | returned _ _ => exact le_rfl
  | ended _ => exact le_rfl
  | begins _ _ _ => exact le_rfl
  | reapsOwn _ _ => exact le_rfl
  | reapsOther _ _ _ _ => exact le_rfl
  | findsNobody _ _ _ => exact le_rfl
  | reads _ _ _ => exact le_rfl
  | interrupted => exact le_rfl

theorem log_length_of_exec {last : Family ι Signal} {actions : List (Action ι Signal)}
    (run : (familySystem ι Signal handled).execUnder (SparesSiblings handled) family actions =
      some last) : family.log.length ≤ last.log.length :=
  System.le_of_execUnder (fun family => family.log.length)
    (fun _ _ _ step => log_length_of_effect (effect_of_step step)) run

section Awaits

omit [DecidableEq ι] [Fintype ι] [ToString Signal]

theorem Awaits.of_wait (awaits : Awaits family child) {other : ι} {call : Call Signal}
    {dead : Bool} {polls : Nat} (waiting : family.parent = .wait other call dead polls) :
    other = child ∧ (∃ all, call = .wait true all) ∧ (family.procs child).state ≠ .running := by
  obtain ⟨all, dead', ⟨polls', waiting', terminated⟩ | ⟨_, _, reading⟩⟩ := awaits
  · rw [waiting] at waiting'
    cases waiting'
    exact ⟨rfl, ⟨all, rfl⟩, terminated⟩
  · rw [waiting] at reading
    contradiction

theorem Awaits.of_read (awaits : Awaits family child) {other : ι} {call : Call Signal}
    {dead : Bool} {status : Status Signal} {buffer : List UInt8}
    (reading : family.parent = .read other call dead status buffer) :
    other = child ∧ ∃ all, call = .wait true all := by
  obtain ⟨all, dead', ⟨polls', waiting, _⟩ | ⟨_, _, reading'⟩⟩ := awaits
  · rw [reading] at waiting
    contradiction
  · rw [reading] at reading'
    cases reading'
    exact ⟨rfl, all, rfl⟩

theorem Awaits.not_idle (awaits : Awaits family child) : family.parent ≠ .idle := by
  obtain ⟨all, dead, ⟨polls, waiting, _⟩ | ⟨_, _, reading⟩⟩ := awaits
  · simp [waiting]
  · simp [reading]

theorem Awaits.not_signaling (awaits : Awaits family child) {other : ι} {signal : Signal}
    {dead : Bool} : family.parent ≠ .signal other signal dead := by
  obtain ⟨all, dead', ⟨polls, waiting, _⟩ | ⟨_, _, reading⟩⟩ := awaits
  · simp [waiting]
  · simp [reading]

theorem Awaits.terminated (awaits : Awaits family child) (settled : Settled family) :
    (family.procs child).state ≠ .running := by
  obtain ⟨all, dead, ⟨polls, waiting, terminated⟩ | ⟨_, _, reading⟩⟩ := awaits
  · exact terminated
  · simp [settled.reading reading]

end Awaits

omit [ToString Signal] in
/-- The end of another child changes nothing for the wait. -/
theorem Awaits.update (awaits : Awaits family child) {other : ι} (distinct : child ≠ other)
    (proc : Proc Signal)
    (same : proc.state.isReaped = (family.procs other).state.isReaped) :
    Awaits { family with procs := Function.update family.procs other proc } child ∧
      debt { family with procs := Function.update family.procs other proc } = debt family := by
  obtain ⟨all, dead, ⟨polls, waiting, terminated⟩ | ⟨status, buffer, reading⟩⟩ := awaits
  · refine ⟨⟨all, dead, Or.inl ⟨polls, waiting, by simpa [distinct] using terminated⟩⟩, ?_⟩
    simp [debt, waiting, distinct, unreaped_update same]
  · refine ⟨⟨all, dead, Or.inr ⟨status, buffer, reading⟩⟩, ?_⟩
    simp [debt, reading, distinct]

/-- A step of a run in which the parent awaits a dead child ends the call, or
pays for itself. -/
theorem Awaits.of_effect (awaits : Awaits family child) (settled : Settled family)
    (attended : Attended handled family) (effect : Effect handled family action next) :
    family.log.length < next.log.length ∨
      Awaits next child ∧ debt next + (if action.isCallStep then 1 else 0) ≤ debt family := by
  cases effect with
  | @returned other result written running _ =>
      have distinct : child ≠ other := by
        rintro rfl
        exact awaits.terminated settled running
      obtain ⟨still, same⟩ := awaits.update distinct
        ⟨.zombie (.exited 0), written, some (result, written)⟩ (by rw [running]; rfl)
      exact Or.inr ⟨still, same.le⟩
  | @ended other status written running =>
      have distinct : child ≠ other := by
        rintro rfl
        exact awaits.terminated settled running
      obtain ⟨still, same⟩ := awaits.update distinct ⟨.zombie status, written, none⟩
        (by rw [running]; rfl)
      exact Or.inr ⟨still, same.le⟩
  | cached idle _ _ => exact absurd idle awaits.not_idle
  | begins idle _ _ => exact absurd idle awaits.not_idle
  | reapsOwn waiting _ =>
      obtain ⟨rfl, ⟨all, rfl⟩, _⟩ := awaits.of_wait waiting
      have pos := unreaped_pos (attended.not_reaped_of_waiting waiting)
      refine Or.inr ⟨⟨all, _, Or.inr ⟨_, _, rfl⟩⟩, ?_⟩
      simp [debt, waiting, Action.isCallStep, reap]
      omega
  | @reapsOther _ _ _ _ pick waiting _ distinct zombie =>
      obtain ⟨rfl, ⟨all, rfl⟩, terminated⟩ := awaits.of_wait waiting
      have reaps := unreaped_reap family.procs zombie
      refine Or.inr ⟨⟨all, _, Or.inl ⟨_, rfl, ?_⟩⟩, ?_⟩
      · simpa [reap, distinct.symm] using terminated
      · simp [debt, waiting, Action.isCallStep, reap, distinct.symm] at reaps ⊢
        omega
  | findsNothing waiting _ noBlock =>
      obtain ⟨_, ⟨all, rfl⟩, _⟩ := awaits.of_wait waiting
      contradiction
  | findsNobody waiting _ reaped =>
      exact absurd reaped (attended.not_reaped_of_waiting waiting)
  | @reads _ call dead status buffer n reading atLeast atMost =>
      obtain ⟨rfl, all, rfl⟩ := awaits.of_read reading
      refine Or.inr ⟨⟨all, dead, Or.inr ⟨status, _, rfl⟩⟩, ?_⟩
      simp [debt, reading, Action.isCallStep]
      omega
  | concludes reading _ =>
      obtain ⟨rfl, all, rfl⟩ := awaits.of_read reading
      exact Or.inl (Nat.lt_succ_self _)
  | interrupted => exact Or.inr ⟨awaits, by simp [Action.isCallStep]⟩
  | signals signaling => exact absurd signaling awaits.not_signaling

/-! ## Runs -/

theorem attended_of_reachable
    (reachable : (familySystem ι Signal handled).ReachableUnder (SparesSiblings handled) family) :
    Attended handled family := by
  apply reachable.invariant (Attended handled)
  · rintro _ rfl
    constructor
    case reaped =>
      intro child _ reaped
      contradiction
    case waiting =>
      intro child call dead polls waiting
      contradiction
    case signaling =>
      intro child signal dead signaling
      contradiction
  · intro state action next _ spares step attended
    exact attended.of_effect (effect_of_step step) spares

theorem truthful_of_reachable
    (reachable : (familySystem ι Signal handled).ReachableUnder (SparesSiblings handled) family) :
    Truthful family := by
  apply reachable.invariant Truthful
  · rintro _ rfl
    constructor
    case alive =>
      intro entry member
      contradiction
    case wait =>
      intro entry member
      contradiction
    case kill =>
      intro sent member
      contradiction
  · intro state action next before _ step truthful
    exact truthful.of_effect (attended_of_reachable before) (effect_of_step step)

/-- A wait for a dead child that has not returned has not yet made as many
steps as it owes. -/
theorem callSteps_le_debt
    (reachable : (familySystem ι Signal handled).ReachableUnder (SparesSiblings handled) family)
    (awaits : Awaits family child) {actions : List (Action ι Signal)} {last : Family ι Signal}
    (run : (familySystem ι Signal handled).execUnder (SparesSiblings handled) family actions =
      some last)
    (unfinished : last.log.length = family.log.length) :
    actions.countP Action.isCallStep ≤ debt family := by
  apply System.countP_le_of_pays
    (fun family => (familySystem ι Signal handled).ReachableUnder (SparesSiblings handled) family ∧
      Awaits family child) (fun family => family.log.length) debt Action.isCallStep ?_ ?_
    ⟨reachable, awaits⟩ run unfinished
  · exact fun _ _ _ step => log_length_of_effect (effect_of_step step)
  · rintro state action next ⟨reachable, awaits⟩ spares step
    rcases awaits.of_effect (settled_of_reachable reachable) (attended_of_reachable reachable)
      (effect_of_step step) with returned | ⟨still, paid⟩
    · exact Or.inl returned
    · exact Or.inr ⟨⟨reachable.step spares step, still⟩, paid⟩

/-- A wait for a dead child has a next step, which reaps no sibling. -/
theorem callStep_enabled (settled : Settled family) (attended : Attended handled family)
    (awaits : Awaits family child) :
    ∃ action : Action ι Signal, action.isCallStep = true ∧ SparesSiblings handled family action ∧
      (familySystem ι Signal handled).Enabled family action := by
  have terminated := awaits.terminated settled
  obtain ⟨all, dead, ⟨polls, waiting, _⟩ | ⟨status, buffer, reading⟩⟩ := awaits
  · refine ⟨.waitpid child, rfl, by simp [SparesSiblings, waiting], ?_⟩
    cases state : (family.procs child).state with
    | running => exact absurd state terminated
    | zombie status =>
        cases all <;>
          simp [System.Enabled, familySystem, Family.step, waiting, waitpid, state, Call.all]
    | reaped => exact absurd state (attended.not_reaped_of_waiting waiting)
  · refine ⟨.read 1, rfl, by simp [SparesSiblings, reading], ?_⟩
    by_cases empty : (family.procs child).pipe = []
    · simp [System.Enabled, familySystem, Family.step, reading, empty]
    · have nonempty := List.length_pos_iff.mpr empty
      simp [System.Enabled, familySystem, Family.step, reading, empty, Nat.succ_le_iff.mpr nonempty]

/-- No death of a child with a handle goes unnoticed. -/
structure NoticesTheDead (handled : ι → Bool) (family : Family ι Signal) : Prop
    extends Truthful family where
  /-- A blocking `wait` calls `waitpid` at most once for each child. -/
  polls : ∀ {child all dead polls}, family.parent = .wait child (.wait true all) dead polls →
    polls < Fintype.card ι
  /-- A blocking `wait` for a dead child is never stuck. -/
  proceeds : ∀ {child}, Awaits family child →
    ∃ action : Action ι Signal, action.isCallStep = true ∧ SparesSiblings handled family action ∧
      (familySystem ι Signal handled).Enabled family action
  /-- It has returned in every continuation with more steps of its own than it
  owes. -/
  returns : ∀ {child}, Awaits family child → ∀ {actions last},
    (familySystem ι Signal handled).execUnder (SparesSiblings handled) family actions =
      some last →
    debt family < actions.countP Action.isCallStep → family.log.length < last.log.length

/-- Dead children are noticed in every run in which no `wait` for any child
reaps the child of another handle. -/
theorem dead_children_noticed
    (reachable : (familySystem ι Signal handled).ReachableUnder (SparesSiblings handled) family) :
    NoticesTheDead handled family := by
  have attended := attended_of_reachable reachable
  constructor
  case toTruthful => exact truthful_of_reachable reachable
  case polls =>
    intro child all dead polls waiting
    obtain ⟨_, _, _, count⟩ := attended.waiting waiting
    have pos := unreaped_pos (attended.not_reaped_of_waiting waiting)
    omega
  case proceeds =>
    intro child awaits
    exact callStep_enabled (settled_of_reachable reachable) attended awaits
  case returns =>
    intro child awaits actions last run more
    have grown := log_length_of_exec run
    by_contra unfinished
    have owed := callSteps_le_debt reachable awaits run (by omega)
    omega

/-- Two children end, one by a signal; the parent asks for both. -/
def noticedRun : List (Action (Fin 2) Nat) :=
  [.call 0 (.wait false true), .waitpid 0, .ended 1 (.exited 3) [], .call 1 .alive, .waitpid 1,
    .read 1, .call 1 (.kill 9), .ended 0 (.signaled 9) [], .call 0 (.wait true true), .waitpid 0]

theorem dead_children_noticed_noticedRun :
    ∃ family : Family (Fin 2) Nat,
      (familySystem (Fin 2) Nat fun _ => true).execUnder (SparesSiblings fun _ => true) .initial
        noticedRun = some family ∧ NoticesTheDead (fun _ => true) family := by
  have initial : (familySystem (Fin 2) Nat fun _ => true).init .initial := rfl
  obtain ⟨family, run, reachable⟩ := System.exists_execUnder_of_isSome
    (SparesSiblings fun _ => true) noticedRun initial (by decide)
  exact ⟨family, run, dead_children_noticed reachable⟩

/-! ## A child that is reaped behind the back of its handle -/

/-- The child is reaped, and its handle neither knows the result nor is about
to. -/
structure Orphaned (family : Family ι Signal) (child : ι) : Prop where
  reaped : (family.procs child).state = .reaped
  unknown : family.results child = none
  elsewhere : ∀ call dead status buffer, family.parent ≠ .read child call dead status buffer

omit [Fintype ι] in
/-- An orphaned child stays orphaned. -/
theorem Orphaned.of_effect (orphaned : Orphaned family child) (settled : Settled family)
    (effect : Effect handled family action next) : Orphaned next child := by
  constructor
  case reaped => exact reaped_of_effect effect orphaned.reaped
  case unknown =>
    cases cached : next.results child with
    | none => rfl
    | some result =>
        rcases cached_of_effect effect cached with before | ⟨_, _, _, _, reading, _⟩
        · rw [orphaned.unknown] at before
          contradiction
        · exact absurd reading (orphaned.elsewhere _ _ _ _)
  case elsewhere =>
    intro call dead status buffer reading
    rcases reading_of_effect settled effect reading with ⟨zombie, _⟩ | ⟨_, before, _⟩
    · rw [orphaned.reaped] at zombie
      contradiction
    · exact orphaned.elsewhere _ _ _ _ before

/-- A step that the condition excludes orphans the child of a handle. -/
theorem orphaned_of_not_spares (settled : Settled family)
    (step : family.step handled action = some next)
    (breaks : ¬ SparesSiblings handled family action) :
    ∃ child, handled child = true ∧ Orphaned next child := by
  unfold SparesSiblings at breaks
  split at breaks
  · rename_i child call dead polls pick waiting
    obtain ⟨all, distinct, handle, zombie⟩ : call.all = true ∧ pick ≠ child ∧
        handled pick = true ∧ (family.procs pick).state.isZombie = true := by
      simpa using breaks
    obtain ⟨status, isZombie⟩ := ProcState.isZombie_iff.mp zombie
    simp only [Family.step, waiting, waitpid, all, if_true, isZombie, if_neg distinct] at step
    cases step
    refine ⟨pick, handle, ?_⟩
    constructor
    case reaped => simp [reap]
    case unknown =>
      cases known : family.results pick with
      | none => rfl
      | some result =>
          have reaped := settled.cached known
          rw [isZombie] at reaped
          contradiction
    case elsewhere => simp
  · exact absurd trivial breaks

/-- In no run does the handle of an orphaned child notice anything: `alive`
returns true and no `wait` returns a result. -/
theorem Orphaned.unnoticed
    (reachable : (familySystem ι Signal handled).Reachable family)
    (orphaned : Orphaned family child) {actions : List (Action ι Signal)} {last : Family ι Signal}
    (run : (familySystem ι Signal handled).exec family actions = some last)
    {entry : Entry ι Signal} (member : entry ∈ last.log) (same : entry.child = child) :
    entry ∈ family.log ∨ (entry.call = .alive → entry.reply = .alive true) ∧
      ∀ result, entry.reply ≠ .wait (some result) := by
  induction actions generalizing family with
  | nil =>
      cases run
      exact Or.inl member
  | cons action rest ih =>
      rw [System.exec_cons] at run
      obtain ⟨next, step, restRun⟩ := Option.bind_eq_some_iff.mp run
      have effect := effect_of_step step
      have orphanedNext := orphaned.of_effect (settled_of_reachable reachable) effect
      rcases ih (reachable.step step) orphanedNext restRun with before | unnoticed
      · rcases entry_of_effect effect before with older | ⟨result, cached, _⟩ |
          ⟨_, _, _, _, reply⟩ | ⟨_, _, kill, reply⟩
        · exact Or.inl older
        · rw [same, orphanedNext.unknown] at cached
          contradiction
        · refine Or.inr ⟨?_, ?_⟩
          · intro alive
            rw [reply, alive]
            rfl
          · intro result waited
            rw [reply] at waited
            have known := Call.reply_eq_wait waited
            contradiction
        · refine Or.inr ⟨?_, by simp [reply]⟩
          intro alive
          rw [alive] at kill
          contradiction
      · exact Or.inr unnoticed

/-- A `wait` on one handle reaps the child of the other, whose handle is then
asked whether it is alive and told to kill it. -/
def lostChildRun : List (Action (Fin 2) Nat) :=
  [.ended 1 (.exited 0) [], .call 0 (.wait false true), .waitpid 1, .waitpid 0, .call 1 .alive,
    .waitpid 1, .call 1 (.kill 9), .waitpid 1, .signal]

/-- The dead child is reported to be alive, and the signal goes to a pid that
is reaped. -/
theorem lost_child_reachable :
    ∃ family : Family (Fin 2) Nat, (familySystem (Fin 2) Nat fun _ => true).Reachable family ∧
      (⟨1, .alive, true, .alive true⟩ : Entry (Fin 2) Nat) ∈ family.log ∧
      (⟨1, true⟩ : Sent (Fin 2)) ∈ family.sent ∧ ¬ Truthful family := by
  have run : ((familySystem (Fin 2) Nat fun _ => true).exec .initial lostChildRun).any
      (fun family => (⟨1, .alive, true, .alive true⟩ : Entry (Fin 2) Nat) ∈ family.log ∧
        (⟨1, true⟩ : Sent (Fin 2)) ∈ family.sent) = true := by
    decide
  obtain ⟨family, reachable, lost⟩ := System.exists_reachable_of_exec _ _ rfl run
  obtain ⟨logged, sent⟩ := of_decide_eq_true lost
  refine ⟨family, reachable, logged, sent, ?_⟩
  intro truthful
  have reply := truthful.alive _ logged rfl rfl
  contradiction

end Schtest.Child
