import Schtest.Child.Noticing

/-!
# `Child::spawn`

The spawned child becomes a subreaper, runs the command in a child of its own,
waits for it with `wait(true, true)`, and returns the result of that wait.  Two
pairs of `run` and `wait` carry one status: what the inner pair concludes is
written into the pipe of the outer one.

The kernel knows more signals than the `Signal` of `nix`, which ends at 31: the
`waitpid` of `nix` reaps a process that died by another one, finds no `Signal`
for it and returns `Err(EINVAL)`.  The loop of `wait` takes this for a child that
is still alive.
-/

namespace Schtest.Child

open Schtest.Transition

universe u v

/-! ## The command -/

/-- `CString::new(arg)`, which fails on a NUL byte. -/
def cString (arg : String) : Option (List UInt8) :=
  if 0 ∈ asBytes arg then none else some (asBytes arg ++ [0])

/-- How far `spawn` gets with its arguments. -/
inductive Start
  | failed (error : String)
  | panicked
  /-- It clones the process that is to run this command. -/
  | clones (args : List (List UInt8))
  deriving DecidableEq

/-- `Child::spawn`, up to the first `clone`. -/
def spawn (args : List String) : Start :=
  if args.isEmpty then .failed "No command specified"
  else
    match args.mapM cString with
    | none => .panicked
    | some cArgs => .clones cArgs

theorem exists_cStrings_iff {args : List String} :
    (∃ cArgs, args.mapM cString = some cArgs) ↔ ∀ arg ∈ args, 0 ∉ asBytes arg := by
  induction args with
  | nil => simp
  | cons arg rest ih =>
      rw [List.forall_mem_cons, ← ih, List.mapM_cons]
      by_cases nul : 0 ∈ asBytes arg
      · simp [cString, nul]
      · cases rest.mapM cString <;> simp [cString, nul]

/-- `spawn` clones for every command without NUL bytes. -/
theorem exists_spawn_eq_clones_iff {args : List String} :
    (∃ cArgs, spawn args = .clones cArgs) ↔ args ≠ [] ∧ ∀ arg ∈ args, 0 ∉ asBytes arg := by
  rw [← exists_cStrings_iff, spawn]
  by_cases empty : args = []
  · simp [empty]
  · rw [if_neg (by simpa using empty)]
    cases args.mapM cString <;> simp [empty]

/-- How the process that is to run the command ends. -/
inductive Outcome (Signal : Type v)
  /-- `execvp` returns, with an error of this text. -/
  | execFails (error : String)
  | exited (code : Int)
  | signaled (signal : Signal)
  deriving DecidableEq, Repr

namespace Outcome

variable {ι : Type u} {Signal : Type v}

/-- What the function of the process returns when `execvp` does. -/
def execError (error : String) : Result :=
  .error ("Failed to exec: " ++ error)

/-- The last step of the process.  Its function returns where `execvp` does; a
successful `execvp` closes the pipe, which is `O_CLOEXEC`. -/
def ends (command : ι) : Outcome Signal → Action ι Signal
  | .execFails error => .returned command (execError error) (encode (execError error))
  | .exited code => .ended command (.exited code) []
  | .signaled signal => .ended command (.signaled signal) []

/-- The status that the kernel keeps. -/
def status : Outcome Signal → Status Signal
  | .execFails _ => .exited 0
  | .exited code => .exited code
  | .signaled signal => .signaled signal

/-- What is left in the pipe. -/
def bytes : Outcome Signal → List UInt8
  | .execFails error => encode (execError error)
  | _ => []

/-- The `Signal` of `nix` has the signal that the process died by, if it did. -/
def isListed (listed : Signal → Bool) : Outcome Signal → Bool
  | .signaled signal => listed signal
  | _ => true

variable [ToString Signal]

/-- What the inner `wait` returns. -/
def result (outcome : Outcome Signal) : Result :=
  concludeStatus outcome.status outcome.bytes

/-- The text that tells what went wrong with the command. -/
def error? : Outcome Signal → Option String
  | .execFails error => some ("Failed to exec: " ++ error)
  | .exited code =>
      if code = 0 then none else some ("Child process exited with code " ++ toString code)
  | .signaled signal => some ("Child process was killed by signal " ++ toString signal)

end Outcome

/-- A zombie that died by a signal for which `nix` has no `Signal`. -/
def ProcState.isUnlisted {Signal : Type v} (listed : Signal → Bool) : ProcState Signal → Bool
  | .zombie (.signaled signal) => !listed signal
  | _ => false

theorem ProcState.isUnlisted_iff {Signal : Type v} {listed : Signal → Bool}
    {state : ProcState Signal} : state.isUnlisted listed = true ↔
      ∃ signal, state = .zombie (.signaled signal) ∧ listed signal = false := by
  unfold isUnlisted
  split
  · simp
  · rename_i other
    constructor
    · exact fun never => nomatch never
    · rintro ⟨signal, rfl, _⟩
      exact absurd rfl (other signal)

/-! ## The three processes -/

/-- The process that is to run the command has ended in this way, or runs; the
subreaper with the command and the orphans it adopts; and the parent with the
subreaper as its child. -/
structure Spawned (ι : Type u) (Signal : Type v) where
  outcome : Option (Outcome Signal)
  reaper : Family ι Signal
  parent : Family Unit Signal

/-- A step of a process that waits. -/
inductive Move (ι : Type u)
  | wait
  | waitpid (pick : ι)
  | read (n : Nat)
  /-- `read` fails with `EINTR`. -/
  | interrupted
  deriving DecidableEq, Repr

/-- The step as one of a process that makes no other call than this one. -/
def Move.action {ι : Type u} {Signal : Type v} (child : ι) (call : Call Signal) :
    Move ι → Action ι Signal
  | .wait => .call child call
  | .waitpid pick => .waitpid pick
  | .read n => .read n
  | .interrupted => .interrupted

namespace Spawned

/-- The steps of the three processes and of the orphans. -/
inductive Action (ι : Type u) (Signal : Type v)
  /-- The process that is to run the command ends. -/
  | outcome (outcome : Outcome Signal)
  /-- An adopted orphan ends. -/
  | orphan (pid : ι) (status : Status Signal)
  | reaper (move : Move ι)
  /-- The function of the subreaper returns what its `wait` has returned. -/
  | exit
  | parent (move : Move Unit)
  deriving DecidableEq, Repr

variable {ι : Type u} [DecidableEq ι] [Fintype ι] {Signal : Type v} [ToString Signal]

/-- The subreaper has a handle for the command only. -/
def handles (command pid : ι) : Bool :=
  pid = command

/-- A step of the subreaper in its `wait(true, true)`. -/
def reaperStep (listed : Signal → Bool) (command : ι) (reaper : Family ι Signal) (move : Move ι) :
    Option (Family ι Signal) :=
  match reaper.parent, move with
  | .wait child call dead polls, .waitpid pick =>
      if (reaper.procs pick).state.isUnlisted listed then
        -- `Err(EINVAL)` becomes `None`, and the loop goes on
        some { reaper with
          procs := reap reaper.procs pick, parent := .wait child call dead (polls + 1) }
      else reaper.step (handles command) (.waitpid pick)
  | _, move => reaper.step (handles command) (move.action command (.wait true true))

/-- One step of the three processes or of an orphan. -/
def step (listed : Signal → Bool) (command : ι) (spawned : Spawned ι Signal) :
    Action ι Signal → Option (Spawned ι Signal)
  | .outcome outcome =>
      (spawned.reaper.step (handles command) (outcome.ends command)).map fun reaper =>
        { spawned with outcome := some outcome, reaper := reaper }
  | .orphan pid status =>
      if pid = command then none
      else (spawned.reaper.step (handles command) (.ended pid status [])).map fun reaper =>
        { spawned with reaper := reaper }
  | .reaper move =>
      match spawned.reaper.log with
      | [] =>
          (reaperStep listed command spawned.reaper move).map
            fun reaper => { spawned with reaper := reaper }
      | _ :: _ => none
  | .exit =>
      match spawned.reaper.log with
      | ⟨_, _, _, .wait (some result)⟩ :: _ =>
          (spawned.parent.step (fun _ => true) (.returned () result (encode result))).map
            fun parent => { spawned with parent := parent }
      | _ => none
  | .parent move =>
      (spawned.parent.step (fun _ => true) (move.action () (.wait true false))).map
        fun parent => { spawned with parent := parent }

/-- No process has made a step. -/
def initial : Spawned ι Signal :=
  ⟨none, .initial, .initial⟩

/-- All runs after `spawn` has cloned the subreaper for these arguments: the
parent calls `wait(true, false)`. -/
def system (listed : Signal → Bool) (command : ι) (args : List String) :
    System (Spawned ι Signal) (Action ι Signal) where
  init spawned := (∃ cArgs, spawn args = .clones cArgs) ∧ spawned = initial
  step := step listed command

/-- The process that is to run the command ends in this way. -/
def EndsBy (outcome : Outcome Signal) (_ : Spawned ι Signal) : Action ι Signal → Prop
  | .outcome other => other = outcome
  | _ => True

end Spawned

/-! ## A process that makes one call -/

section Dedicated

variable {ι : Type u} {Signal : Type v}

/-- The process is in no other call than this one, on this child. -/
def ParentPc.Makes (child : ι) (call : Call Signal) : ParentPc ι Signal → Prop
  | .idle => True
  | .wait other call' _ _ => other = child ∧ call' = call
  | .read other call' _ _ _ => other = child ∧ call' = call
  | .signal _ _ _ => False

/-- The process makes only this `wait`. -/
structure Dedicated (family : Family ι Signal) (child : ι) (all : Bool) : Prop where
  parent : family.parent.Makes child (.wait true all)
  logged : ∀ entry ∈ family.log, entry.child = child ∧ entry.call = .wait true all

variable [DecidableEq ι] {family next : Family ι Signal} {child : ι} {all : Bool}

omit [DecidableEq ι] in
theorem Dedicated.of_waiting (dedicated : Dedicated family child all) {other : ι}
    {call : Call Signal} {dead : Bool} {polls : Nat}
    (waiting : family.parent = .wait other call dead polls) :
    other = child ∧ call = .wait true all := by
  have makes := dedicated.parent
  rwa [waiting] at makes

omit [DecidableEq ι] in
theorem Dedicated.of_reading (dedicated : Dedicated family child all) {other : ι}
    {call : Call Signal} {dead : Bool} {status : Status Signal} {buffer : List UInt8}
    (reading : family.parent = .read other call dead status buffer) :
    other = child ∧ call = .wait true all := by
  have makes := dedicated.parent
  rwa [reading] at makes

omit [DecidableEq ι] in
/-- The `wait` returns. -/
theorem Dedicated.finish (logged : ∀ entry ∈ family.log,
    entry.child = child ∧ entry.call = .wait true all) (dead : Bool) (result : Option Result) :
    Dedicated (family.finish child (.wait true all) dead result) child all := by
  constructor
  case parent => trivial
  case logged =>
    intro entry member
    rcases Family.mem_log_finish member with before | rfl
    · exact logged entry before
    · exact ⟨rfl, rfl⟩

theorem Dedicated.of_effect [ToString Signal] {handled : ι → Bool} {action : Action ι Signal}
    (dedicated : Dedicated family child all) (effect : Effect handled family action next)
    (only : ∀ other call, action = .call other call → other = child ∧ call = .wait true all) :
    Dedicated next child all := by
  cases effect with
  | returned _ _ => exact ⟨dedicated.parent, dedicated.logged⟩
  | ended _ => exact ⟨dedicated.parent, dedicated.logged⟩
  | cached _ _ _ =>
      obtain ⟨rfl, rfl⟩ := only _ _ rfl
      exact .finish dedicated.logged _ _
  | begins _ _ _ => exact ⟨only _ _ rfl, dedicated.logged⟩
  | reapsOwn waiting _ => exact ⟨dedicated.of_waiting waiting, dedicated.logged⟩
  | reapsOther waiting _ _ _ => exact ⟨dedicated.of_waiting waiting, dedicated.logged⟩
  | findsNothing waiting _ _ =>
      obtain ⟨rfl, rfl⟩ := dedicated.of_waiting waiting
      exact .finish dedicated.logged _ _
  | findsNobody waiting _ _ => exact ⟨dedicated.of_waiting waiting, dedicated.logged⟩
  | reads reading _ _ => exact ⟨dedicated.of_reading reading, dedicated.logged⟩
  | @concludes other _ _ status buffer _ reading _ =>
      obtain ⟨rfl, rfl⟩ := dedicated.of_reading reading
      have logged : ∀ entry ∈ (family.cache other (concludeStatus status buffer)).log,
          entry.child = other ∧ entry.call = .wait true all := dedicated.logged
      exact .finish logged _ _
  | interrupted => exact dedicated
  | signals signaling =>
      have makes := dedicated.parent
      rw [signaling] at makes
      exact makes.elim

end Dedicated

/-! ## What is carried from level to level -/

namespace Spawned

variable {ι : Type u} [DecidableEq ι] [Fintype ι] {Signal : Type v} [ToString Signal]
  {listed : Signal → Bool} {command : ι} {args : List String} {spawned next : Spawned ι Signal}

/-- A step of the subreaper loses the status of a zombie that died by a signal
which is not listed, and goes on polling, or it is a step of `wait` on the family. -/
inductive ReaperEffect (listed : Signal → Bool) (command : ι) (reaper : Family ι Signal) :
    Move ι → Family ι Signal → Prop
  | loses {pick child call dead polls signal} : reaper.parent = .wait child call dead polls →
      (reaper.procs pick).state = .zombie (.signaled signal) → listed signal = false →
      ReaperEffect listed command reaper (.waitpid pick)
        { reaper with
          procs := reap reaper.procs pick, parent := .wait child call dead (polls + 1) }
  | step {move next} :
      reaper.step (handles command) (move.action command (.wait true true)) = some next →
      ReaperEffect listed command reaper move next

theorem reaperEffect_of_step {move : Move ι} {reaper after : Family ι Signal}
    (moves : reaperStep listed command reaper move = some after) :
    ReaperEffect listed command reaper move after := by
  unfold reaperStep at moves
  split at moves
  · rename_i waiting
    split at moves
    · rename_i unlisted
      obtain ⟨signal, zombie, unlisted⟩ := ProcState.isUnlisted_iff.mp unlisted
      cases moves
      exact .loses waiting zombie unlisted
    · exact .step moves
  · exact .step moves

/-- What a step does at the two levels.  The subreaper makes one call, and ends
when it has returned. -/
inductive StepEffect (listed : Signal → Bool) (command : ι) (spawned : Spawned ι Signal) :
    Action ι Signal → Spawned ι Signal → Prop
  | outcome {outcome reaper} :
      spawned.reaper.step (handles command) (outcome.ends command) = some reaper →
      StepEffect listed command spawned (.outcome outcome)
        { spawned with outcome := some outcome, reaper := reaper }
  | orphan {pid status reaper} : pid ≠ command →
      spawned.reaper.step (handles command) (.ended pid status []) = some reaper →
      StepEffect listed command spawned (.orphan pid status) { spawned with reaper := reaper }
  | reaper {move reaper} : spawned.reaper.log = [] →
      reaperStep listed command spawned.reaper move = some reaper →
      StepEffect listed command spawned (.reaper move) { spawned with reaper := reaper }
  | exit {entry result older parent} : spawned.reaper.log = entry :: older →
      entry.reply = .wait (some result) →
      spawned.parent.step (fun _ => true) (.returned () result (encode result)) = some parent →
      StepEffect listed command spawned .exit { spawned with parent := parent }
  | parent {move parent} :
      spawned.parent.step (fun _ => true) (Move.action () (.wait true false) move) =
        some parent →
      StepEffect listed command spawned (.parent move) { spawned with parent := parent }

theorem stepEffect_of_step {action : Action ι Signal}
    (step : spawned.step listed command action = some next) :
    StepEffect listed command spawned action next := by
  cases action with
  | outcome outcome =>
      obtain ⟨reaper, ends, rfl⟩ := Option.map_eq_some_iff.mp step
      exact .outcome ends
  | orphan pid status =>
      simp only [Spawned.step] at step
      split at step
      · contradiction
      · rename_i distinct
        obtain ⟨reaper, ends, rfl⟩ := Option.map_eq_some_iff.mp step
        exact .orphan distinct ends
  | reaper move =>
      simp only [Spawned.step] at step
      split at step
      · rename_i log
        obtain ⟨reaper, moves, rfl⟩ := Option.map_eq_some_iff.mp step
        exact .reaper log moves
      · contradiction
  | exit =>
      simp only [Spawned.step] at step
      split at step
      · rename_i log
        obtain ⟨parent, exits, rfl⟩ := Option.map_eq_some_iff.mp step
        exact .exit log rfl exits
      · contradiction
  | parent move =>
      obtain ⟨parent, moves, rfl⟩ := Option.map_eq_some_iff.mp step
      exact .parent moves

/-- Both levels are runs of a process and its children; the subreaper holds the
outcome of the command, and has passed on what it concluded from it. -/
structure Carried (listed : Signal → Bool) (command : ι) (spawned : Spawned ι Signal) :
    Prop where
  reaper : (familySystem ι Signal (handles command)).ReachableUnder
    (SparesSiblings (handles command)) spawned.reaper
  parent : (familySystem Unit Signal fun _ => true).ReachableUnder
    (SparesSiblings fun _ => true) spawned.parent
  reaperCall : Dedicated spawned.reaper command true
  parentCall : Dedicated spawned.parent () false
  listed : ∀ outcome, spawned.outcome = some outcome → outcome.isListed listed = true
  running : spawned.outcome = none → (spawned.reaper.procs command).state = .running
  ended : ∀ outcome, spawned.outcome = some outcome →
    (spawned.reaper.procs command).state ≠ .running ∧
      Ended spawned.reaper command outcome.status outcome.bytes
  passed : (spawned.parent.procs ()).state ≠ .running → ∃ outcome,
    spawned.outcome = some outcome ∧ (spawned.parent.procs ()).Delivered outcome.result

section Effect

variable {κ : Type u} [DecidableEq κ] {handled : κ → Bool} {family family' : Family κ Signal}
  {action : Child.Action κ Signal} {child : κ}

/-- A child that has ended keeps its pipe until it is reaped. -/
theorem kept_of_ne_running (settled : Settled family)
    (effect : Effect handled family action family')
    (terminated : (family.procs child).state ≠ .running) :
    (family'.procs child).returned = (family.procs child).returned ∧
      ∀ status, (family'.procs child).state = .zombie status →
        family'.procs child = family.procs child := by
  rcases proc_of_effect settled effect child with ⟨_, _, _, running, _⟩ | kept
  · exact absurd running terminated
  · exact kept

/-- The action is the end of this child. -/
def Ends (child : κ) : Child.Action κ Signal → Prop
  | .returned pid _ _ => pid = child
  | .ended pid _ _ => pid = child
  | _ => False

/-- A step keeps the state of a child, reaps it, or is its end. -/
theorem state_of_effect (effect : Effect handled family action family') (child : κ) :
    (family'.procs child).state = (family.procs child).state ∨
      (∃ status, (family.procs child).state = .zombie status ∧
        (family'.procs child).state = .reaped) ∨
      (Ends child action ∧ (family.procs child).state = .running ∧
        ∃ status, (family'.procs child).state = .zombie status) := by
  cases effect with
  | @returned pid result written running _ =>
      by_cases same : child = pid
      · subst same
        exact Or.inr (Or.inr ⟨rfl, running, .exited 0, by simp⟩)
      · exact Or.inl (by simp [same])
  | @ended pid status written running =>
      by_cases same : child = pid
      · subst same
        exact Or.inr (Or.inr ⟨rfl, running, status, by simp⟩)
      · exact Or.inl (by simp [same])
  | @reapsOwn pid _ _ _ status _ _ zombie =>
      by_cases same : child = pid
      · subst same
        exact Or.inr (Or.inl ⟨status, zombie, by simp [reap]⟩)
      · exact Or.inl (by simp [reap, same])
  | @reapsOther _ _ _ _ pick _ _ _ zombie =>
      by_cases same : child = pick
      · subst same
        obtain ⟨status, zombie⟩ := ProcState.isZombie_iff.mp zombie
        exact Or.inr (Or.inl ⟨status, zombie, by simp [reap]⟩)
      · exact Or.inl (by simp [reap, same])
  | @reads pid _ _ _ _ _ _ _ _ =>
      by_cases same : child = pid
      · subst same
        exact Or.inl (by simp)
      · exact Or.inl (by simp [same])
  | cached _ _ _ => exact Or.inl (by simp)
  | findsNothing _ _ _ => exact Or.inl (by simp)
  | concludes _ _ => exact Or.inl (by simp)
  | begins _ _ _ => exact Or.inl rfl
  | findsNobody _ _ _ => exact Or.inl rfl
  | interrupted => exact Or.inl rfl
  | signals _ => exact Or.inl rfl

/-- A call begins while no other one is in progress. -/
theorem idle_of_call {call : Call Signal}
    (effect : Effect handled family (.call child call) family') : family.parent = .idle := by
  cases effect with
  | cached idle _ _ => exact idle
  | begins idle _ _ => exact idle

/-- How the process that is to run the command is left. -/
theorem proc_of_outcome {outcome : Outcome Signal}
    (effect : Effect handled family (outcome.ends child) family') :
    (family.procs child).state = .running ∧ ∃ returned,
      family'.procs child = ⟨.zombie outcome.status, outcome.bytes, returned⟩ := by
  cases outcome with
  | execFails error =>
      cases effect with
      | returned running _ => exact ⟨running, _, Function.update_self _ _ _⟩
  | exited code =>
      cases effect with
      | ended running => exact ⟨running, _, Function.update_self _ _ _⟩
  | signaled signal =>
      cases effect with
      | ended running => exact ⟨running, _, Function.update_self _ _ _⟩

/-- A child runs until a step is its end. -/
theorem running_iff_of_effect (effect : Effect handled family action family')
    (survives : ¬ Ends child action) :
    (family'.procs child).state = .running ↔ (family.procs child).state = .running := by
  rcases state_of_effect effect child with same | ⟨status, zombie, reaped⟩ | ⟨ends, _⟩
  · rw [same]
  · simp [zombie, reaped]
  · exact absurd ends survives

end Effect

omit [Fintype ι] [ToString Signal] in
/-- The subreaper has no other handle that it could miss a child of. -/
theorem spares_of_dedicated {family : Family ι Signal} {all : Bool}
    (dedicated : Dedicated family command all) (action : Child.Action ι Signal) :
    SparesSiblings (handles command) family action := by
  unfold SparesSiblings
  split
  · rename_i child call dead polls pick waiting
    obtain ⟨rfl, _⟩ := dedicated.of_waiting waiting
    intro _ distinct handled
    exact absurd (of_decide_eq_true handled) distinct
  · trivial

omit [ToString Signal] in
theorem spares_of_single (family : Family Unit Signal) (action : Child.Action Unit Signal) :
    SparesSiblings (fun _ => true) family action := by
  unfold SparesSiblings
  split
  · exact fun _ distinct => absurd rfl distinct
  · trivial

omit [ToString Signal] in
theorem Move.only {κ : Type u} {child : κ} {call : Call Signal} {move : Move κ} (other : κ)
    (call' : Call Signal) (same : move.action child call = .call other call') :
    other = child ∧ call' = call := by
  cases move <;> cases same
  exact ⟨rfl, rfl⟩

omit [ToString Signal] in
/-- No child ends in a call. -/
theorem Move.not_ends {κ : Type u} (child : κ) (call : Call Signal) (move : Move κ) :
    ¬ Ends child (move.action child call) := by
  cases move <;> exact id

/-- A step of the subreaper, or the end of an orphan. -/
theorem Carried.of_reaper {action : Child.Action ι Signal} {reaper : Family ι Signal}
    (carried : Carried listed command spawned)
    (step : spawned.reaper.step (handles command) action = some reaper)
    (survives : ¬ Ends command action)
    (only : ∀ other call, action = .call other call → other = command ∧ call = .wait true true) :
    Carried listed command { spawned with reaper := reaper } := by
  have effect := effect_of_step step
  have settled := settled_of_reachable carried.reaper
  constructor
  case reaper => exact carried.reaper.step (spares_of_dedicated carried.reaperCall _) step
  case parent => exact carried.parent
  case reaperCall => exact carried.reaperCall.of_effect effect only
  case parentCall => exact carried.parentCall
  case listed => exact carried.listed
  case running =>
    intro unknown
    exact (running_iff_of_effect effect survives).mpr (carried.running unknown)
  case ended =>
    intro outcome known
    obtain ⟨terminated, bytes⟩ := carried.ended outcome known
    have kept := (kept_of_ne_running settled effect terminated).2
    refine ⟨?_, bytes.of_effect settled effect kept⟩
    exact fun running => terminated ((running_iff_of_effect effect survives).mp running)
  case passed => exact carried.passed

theorem carried_initial : Carried listed command (initial : Spawned ι Signal) := by
  constructor
  case reaper => exact .init rfl
  case parent => exact .init rfl
  case reaperCall => exact ⟨trivial, by simp [initial, Family.initial]⟩
  case parentCall => exact ⟨trivial, by simp [initial, Family.initial]⟩
  case listed => simp [initial]
  case running => exact fun _ => rfl
  case ended => simp [initial]
  case passed => exact fun terminated => absurd rfl terminated

/-- The end of the process that is to run the command. -/
theorem Carried.of_outcome {outcome : Outcome Signal} {reaper : Family ι Signal}
    (carried : Carried listed command spawned) (known : outcome.isListed listed = true)
    (ends : spawned.reaper.step (handles command) (outcome.ends command) = some reaper) :
    Carried listed command { spawned with outcome := some outcome, reaper := reaper } := by
  have effect := effect_of_step ends
  have settled := settled_of_reachable carried.reaper
  have only (other : ι) (call : Call Signal) :
      outcome.ends command ≠ .call other call := by
    cases outcome <;> simp [Outcome.ends]
  obtain ⟨running, returned, proc⟩ := proc_of_outcome effect
  constructor
  case reaper => exact carried.reaper.step (spares_of_dedicated carried.reaperCall _) ends
  case parent => exact carried.parent
  case reaperCall =>
    exact carried.reaperCall.of_effect effect fun other call same => absurd same (only other call)
  case parentCall => exact carried.parentCall
  case listed => simpa using known
  case running => simp
  case ended =>
    intro other same
    cases same
    exact ⟨by simp [proc], .of_terminated (settled.of_effect effect) proc⟩
  case passed =>
    intro terminated
    obtain ⟨earlier, known, _⟩ := carried.passed terminated
    exact absurd running (carried.ended earlier known).1

/-- What the `wait` of the subreaper has returned. -/
theorem Carried.of_logged (carried : Carried listed command spawned) {entry : Entry ι Signal}
    (member : entry ∈ spawned.reaper.log) {result : Result}
    (reply : entry.reply = .wait (some result)) :
    ∃ outcome, spawned.outcome = some outcome ∧ result = outcome.result := by
  obtain ⟨own, _⟩ := carried.reaperCall.logged entry member
  have reaped := (settled_of_reachable carried.reaper).logged member reply
  rw [own] at reaped
  cases known : spawned.outcome with
  | none =>
      rw [carried.running known] at reaped
      contradiction
  | some outcome => exact ⟨outcome, rfl, (carried.ended outcome known).2.logged member own reply⟩

/-- The subreaper returns, and ends. -/
theorem Carried.of_exit {outcome : Outcome Signal} {parent : Family Unit Signal}
    (carried : Carried listed command spawned) (known : spawned.outcome = some outcome)
    (exits : spawned.parent.step (fun _ => true)
      (.returned () outcome.result (encode outcome.result)) = some parent) :
    Carried listed command { spawned with parent := parent } := by
  have effect := effect_of_step exits
  constructor
  case reaper => exact carried.reaper
  case parent =>
    exact carried.parent.step (spares_of_single _ (.returned () outcome.result _)) exits
  case reaperCall => exact carried.reaperCall
  case parentCall => exact carried.parentCall.of_effect effect (by simp)
  case listed => exact carried.listed
  case running => exact carried.running
  case ended => exact carried.ended
  case passed =>
    intro _
    refine ⟨outcome, known, ?_⟩
    cases effect with
    | returned _ _ => simp [Proc.Delivered]

/-- A step of the parent. -/
theorem Carried.of_parent {move : Move Unit} {parent : Family Unit Signal}
    (carried : Carried listed command spawned)
    (moves : spawned.parent.step (fun _ => true) (move.action () (.wait true false)) =
      some parent) : Carried listed command { spawned with parent := parent } := by
  have effect := effect_of_step moves
  have settled := settled_of_reachable carried.parent
  have survives := Move.not_ends () (.wait true false : Call Signal) move
  constructor
  case reaper => exact carried.reaper
  case parent => exact carried.parent.step (spares_of_single _ _) moves
  case reaperCall => exact carried.reaperCall
  case parentCall => exact carried.parentCall.of_effect effect Move.only
  case listed => exact carried.listed
  case running => exact carried.running
  case ended => exact carried.ended
  case passed =>
    intro terminated
    rw [ne_eq, running_iff_of_effect effect survives] at terminated
    obtain ⟨outcome, known, delivered⟩ := carried.passed terminated
    refine ⟨outcome, known, ?_⟩
    rw [Proc.Delivered, (kept_of_ne_running settled effect terminated).1]
    exact delivered

/-- A command with a listed outcome is never lost: `Err(EINVAL)` is the answer
for an orphan, which the loop would skip anyway. -/
theorem Carried.step_of_reaperStep (carried : Carried listed command spawned) {move : Move ι}
    {reaper : Family ι Signal}
    (moves : reaperStep listed command spawned.reaper move = some reaper) :
    spawned.reaper.step (handles command) (move.action command (.wait true true)) =
      some reaper := by
  cases reaperEffect_of_step moves with
  | step moves => exact moves
  | @loses pick child call dead polls signal waiting zombie unlisted =>
      obtain ⟨rfl, rfl⟩ := carried.reaperCall.of_waiting waiting
      have distinct : pick ≠ child := by
        rintro rfl
        cases known : spawned.outcome with
        | none =>
            rw [carried.running known] at zombie
            contradiction
        | some outcome =>
            have isListed := carried.listed outcome known
            obtain ⟨same, _⟩ := (carried.ended outcome known).2.zombie zombie
            cases outcome with
            | signaled other =>
                cases same
                rw [Outcome.isListed, unlisted] at isListed
                contradiction
            | _ => cases same
      simp [Move.action, Family.step, waiting, Call.all, waitpid, zombie, distinct]

theorem Carried.of_step {action : Action ι Signal} (carried : Carried listed command spawned)
    (known : ∀ outcome, action = .outcome outcome → outcome.isListed listed = true)
    (step : spawned.step listed command action = some next) : Carried listed command next := by
  cases stepEffect_of_step step with
  | outcome ends => exact carried.of_outcome (known _ rfl) ends
  | orphan distinct ends => exact carried.of_reaper ends distinct (by simp)
  | reaper _ moves =>
      exact carried.of_reaper (carried.step_of_reaperStep moves) (Move.not_ends _ _ _) Move.only
  | exit log reply exits =>
      obtain ⟨outcome, known, rfl⟩ := carried.of_logged (log ▸ List.mem_cons_self) reply
      exact carried.of_exit known exits
  | parent moves => exact carried.of_parent moves

theorem carried_of_reachable {outcome : Outcome Signal} (known : outcome.isListed listed = true)
    (reachable : (system listed command args).ReachableUnder (EndsBy outcome) spawned) :
    Carried listed command spawned := by
  refine System.ReachableUnder.invariant (Carried listed command) ?_ ?_ reachable
  · rintro _ ⟨_, rfl⟩
    exact carried_initial
  · intro state action next _ allowed step carried
    refine carried.of_step ?_ step
    rintro other rfl
    cases allowed
    exact known

/-! ## The verdict of the parent -/

/-- The parent has `Ok` for a command that ran and exited with code 0, and
otherwise an error with the text that tells what went wrong. -/
def Reports (outcome : Outcome Signal) (concluded : Result) : Prop :=
  (concluded = .ok () ↔ outcome = .exited 0) ∧
    ∀ text, outcome.error? = some text →
      ∃ message, concluded = .error message ∧ Contains message text

omit [Fintype ι] in
theorem contains_trans {whole middle part : String} (outer : Contains whole middle)
    (inner : Contains middle part) : Contains whole part := by
  obtain ⟨before, after, rfl⟩ := outer
  obtain ⟨before', after', rfl⟩ := inner
  exact ⟨before ++ before', after' ++ after, by simp [String.append_assoc]⟩

theorem ne_empty_of_contains {whole part : String} (contains : Contains whole part)
    (nonempty : part ≠ "") : whole ≠ "" := by
  obtain ⟨before, after, rfl⟩ := contains
  simp [nonempty]

/-- What the inner `wait` concludes. -/
theorem result_eq (outcome : Outcome Signal) :
    (outcome = .exited 0 ∧ outcome.error? = none ∧ outcome.result = .ok ()) ∨
      ∃ text message, outcome ≠ .exited 0 ∧ outcome.error? = some text ∧ text ≠ "" ∧
        outcome.result = .error message ∧ Contains message text := by
  cases outcome with
  | execFails error =>
      right
      have nonempty : "Failed to exec: " ++ error ≠ "" := by simp
      have survives := (survives_conclude_iff (none : Option Signal) (Outcome.execError error)).mpr
        (by simp [Outcome.execError])
      obtain ⟨message, concluded, contains⟩ := survives.2 _ rfl
      exact ⟨_, message, by simp, rfl, nonempty, concluded, contains⟩
  | exited code =>
      by_cases zero : code = 0
      · subst zero
        exact Or.inl ⟨rfl, rfl, rfl⟩
      · right
        have concluded : (Outcome.exited code : Outcome Signal).result =
            .error ("Child process exited with code " ++ toString code) := by
          simp [Outcome.result, Outcome.status, concludeStatus, conclude]
        exact ⟨_, _, by simpa using zero, if_neg zero, by simp, concluded, "", "", by simp⟩
  | signaled signal =>
      right
      exact ⟨_, _, by simp, rfl, by simp, rfl, "", "", by simp⟩

/-- The status survives both pipes. -/
theorem reports_conclude (outcome : Outcome Signal) :
    Reports outcome (conclude (some 0) (none : Option Signal) (encode outcome.result)) := by
  rcases result_eq outcome with ⟨success, unfailed, result⟩ |
    ⟨text, message, failure, error, nonempty, result, contains⟩
  · rw [result]
    constructor
    · simp [success, conclude, encode]
    · simp [unfailed]
  · have whole : outcome.result ≠ .error "" := by
      simpa [result] using ne_empty_of_contains contains nonempty
    have survives := (survives_conclude_iff (none : Option Signal) outcome.result).mpr whole
    obtain ⟨message', concluded, contains'⟩ := survives.2 message result
    constructor
    · simp [concluded, failure]
    · intro other same
      rw [error] at same
      cases same
      exact ⟨message', concluded, contains_trans contains' contains⟩

/-- Whatever the parent's `wait` has returned reports the outcome. -/
theorem Carried.reports (carried : Carried listed command spawned) {entry : Entry Unit Signal}
    (member : entry ∈ spawned.parent.log) :
    ∃ outcome concluded, spawned.outcome = some outcome ∧ entry.reply = .wait (some concluded) ∧
      Reports outcome concluded := by
  obtain ⟨own, call⟩ := carried.parentCall.logged entry member
  obtain ⟨concluded, reply⟩ := (truthful_of_reachable carried.parent).wait entry member false call
  have reaped := (settled_of_reachable carried.parent).logged member reply
  obtain ⟨outcome, known, delivered⟩ := carried.passed (by simp [reaped])
  have intact := intact_of_reachable carried.parent.reachable () outcome.result delivered
  refine ⟨outcome, concluded, known, reply, ?_⟩
  rw [intact.logged member own reply]
  exact reports_conclude outcome

end Spawned

end Schtest.Child
