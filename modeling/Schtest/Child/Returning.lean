import Schtest.Child.Spawn

/-!
# `wait` on a spawned command returns

Once the command has ended, the subreaper and the parent are never both stuck,
and the parent's `wait` has returned after a bounded number of their steps,
whatever orphans the subreaper has to reap on the way.  This holds for the ways
to end that `nix` can report, and for no other: the subreaper loses the status of
a command that died by an unlisted signal, and never returns.
-/

namespace Schtest.Child

open Schtest.Transition

universe u v

/-- Everything but a `read` that is interrupted. -/
def Move.isWork {ι : Type u} : Move ι → Bool
  | .interrupted => false
  | _ => true

section Remaining

variable {ι : Type u} [DecidableEq ι] [Fintype ι] {Signal : Type v}

/-- A bound for the steps until the one `wait` of a process has returned. -/
def remaining (family : Family ι Signal) (child : ι) : Nat :=
  match family.log, family.parent with
  | _ :: _, _ => 0
  | [], .idle => Fintype.card ι + (family.procs child).pipe.length + 2
  | [], _ => debt family

omit [DecidableEq ι] in
theorem remaining_of_returned {family : Family ι Signal} {child : ι} (returned : family.log ≠ []) :
    remaining family child = 0 := by
  obtain ⟨entry, older, log⟩ := List.exists_cons_of_ne_nil returned
  simp [remaining, log]

omit [DecidableEq ι] in
theorem remaining_of_idle {family : Family ι Signal} {child : ι} (log : family.log = [])
    (idle : family.parent = .idle) :
    remaining family child = Fintype.card ι + (family.procs child).pipe.length + 2 := by
  simp [remaining, log, idle]

omit [DecidableEq ι] in
theorem remaining_of_busy {family : Family ι Signal} {child : ι} (log : family.log = [])
    (busy : family.parent ≠ .idle) : remaining family child = debt family := by
  unfold remaining
  rw [log]
  split <;> simp_all

omit [DecidableEq ι] in
theorem remaining_le_debt {family : Family ι Signal} {child : ι} (busy : family.parent ≠ .idle) :
    remaining family child ≤ debt family := by
  by_cases log : family.log = []
  · exact (remaining_of_busy log busy).le
  · rw [remaining_of_returned log]
    exact Nat.zero_le _

omit [DecidableEq ι] [Fintype ι] in
/-- A process that is in its `wait` for a child that has ended. -/
theorem Dedicated.awaits {family : Family ι Signal} {child : ι} {all : Bool}
    (dedicated : Dedicated family child all) (busy : family.parent ≠ .idle)
    (terminated : (family.procs child).state ≠ .running) : Awaits family child := by
  cases parent : family.parent with
  | idle => exact absurd parent busy
  | wait other call dead polls =>
      obtain ⟨rfl, rfl⟩ := dedicated.of_waiting parent
      exact ⟨all, dead, Or.inl ⟨polls, parent, terminated⟩⟩
  | read other call dead status buffer =>
      obtain ⟨rfl, rfl⟩ := dedicated.of_reading parent
      exact ⟨all, dead, Or.inr ⟨status, buffer, parent⟩⟩
  | signal other signal dead =>
      have makes := dedicated.parent
      rw [parent] at makes
      exact makes.elim

omit [DecidableEq ι] in
theorem Awaits.debt_pos {family : Family ι Signal} {child : ι} (awaits : Awaits family child) :
    0 < debt family := by
  obtain ⟨_, _, ⟨_, waiting, _⟩ | ⟨_, _, reading⟩⟩ := awaits
  · simp [debt, waiting]
  · simp [debt, reading]

variable [ToString Signal] {handled : ι → Bool} {family next : Family ι Signal}
  {action : Action ι Signal} {child : ι} {all : Bool}

/-- A step while the process is in its `wait` for a child that has ended. -/
theorem remaining_of_awaits (awaits : Awaits family child) (log : family.log = [])
    (settled : Settled family) (attended : Attended handled family)
    (effect : Effect handled family action next) :
    remaining next child + (if action.isCallStep then 1 else 0) ≤ remaining family child := by
  rw [remaining_of_busy log awaits.not_idle]
  rcases awaits.of_effect settled attended effect with returned | ⟨still, paid⟩
  · have positive := awaits.debt_pos
    rw [remaining_of_returned (List.length_pos_iff.mp (Nat.zero_lt_of_lt returned))]
    split <;> omega
  · exact (Nat.add_le_add_right (remaining_le_debt still.not_idle) _).trans paid

/-- A step of the process itself. -/
theorem remaining_of_move {move : Move ι} (dedicated : Dedicated family child all)
    (log : family.log = []) (terminated : (family.procs child).state ≠ .running)
    (settled : Settled family) (attended : Attended handled family)
    (effect : Effect handled family (move.action child (.wait true all)) next) :
    remaining next child + (if move.isWork then 1 else 0) ≤ remaining family child := by
  by_cases busy : family.parent ≠ .idle
  · have paid := remaining_of_awaits (dedicated.awaits busy terminated) log settled attended effect
    cases move with
    | wait => exact absurd (Spawned.idle_of_call effect) busy
    | waitpid pick => exact paid
    | read n => exact paid
    | interrupted => exact paid
  · rw [ne_eq, not_not] at busy
    have before : remaining family child =
        Fintype.card ι + (family.procs child).pipe.length + 2 := remaining_of_idle log busy
    cases move with
    | wait =>
        cases effect with
        | cached _ _ _ =>
            rw [remaining_of_returned (by simp [Family.finish, Family.reply]), before]
            simp [Move.isWork]
        | begins _ _ _ =>
            have bounded := unreaped_le_card family.procs
            refine (Nat.add_le_add_right (remaining_le_debt (by simp)) _).trans ?_
            rw [before]
            simp [debt, Move.isWork]
            omega
    | waitpid pick =>
        cases effect <;> simp_all
    | read n =>
        cases effect <;> simp_all
    | interrupted =>
        cases effect
        simp [Move.isWork]

/-- The end of another child does not delay the process. -/
theorem remaining_of_ended {pid : ι} {status : Status Signal} {written : List UInt8}
    (dedicated : Dedicated family child all) (distinct : child ≠ pid)
    (terminated : (family.procs child).state ≠ .running) (settled : Settled family)
    (attended : Attended handled family)
    (effect : Effect handled family (.ended pid status written) next) :
    remaining next child ≤ remaining family child := by
  by_cases log : family.log = []
  · by_cases busy : family.parent ≠ .idle
    · exact remaining_of_awaits (dedicated.awaits busy terminated) log settled attended effect
    · rw [ne_eq, not_not] at busy
      cases effect with
      | ended _ =>
          rw [remaining_of_idle log busy]
          refine le_of_eq_of_le (remaining_of_idle log busy) ?_
          dsimp only
          rw [Function.update_of_ne distinct]
  · cases effect with
    | ended _ => exact le_of_eq_of_le (remaining_of_returned log) (Nat.zero_le _)

end Remaining

namespace Spawned

variable {ι : Type u} [DecidableEq ι] [Fintype ι] {Signal : Type v} [ToString Signal]
  {listed : Signal → Bool} {command : ι} {args : List String} {spawned next : Spawned ι Signal}
  {action : Action ι Signal}

/-- A step of the subreaper or the parent, other than a `read` that is
interrupted. -/
def Action.isWork : Action ι Signal → Bool
  | .reaper move => move.isWork
  | .exit => true
  | .parent move => move.isWork
  | .outcome _ => false
  | .orphan _ _ => false

/-- The command has ended, and the parent is in its `wait`. -/
structure Pending (spawned : Spawned ι Signal) : Prop where
  ended : spawned.outcome ≠ none
  busy : spawned.parent.parent ≠ .idle

/-- A bound for the steps of the parent, and for the end of the subreaper. -/
def parentOwed (spawned : Spawned ι Signal) : Nat :=
  if (spawned.parent.procs ()).state.isRunning then
    spawned.outcome.elim 0 (fun outcome => (encode outcome.result).length) + 3
  else debt spawned.parent

/-- A bound for the steps until the parent's `wait` has returned. -/
def owed (command : ι) (spawned : Spawned ι Signal) : Nat :=
  remaining spawned.reaper command + parentOwed spawned

theorem log_length_of_step (step : spawned.step listed command action = some next) :
    spawned.parent.log.length ≤ next.parent.log.length := by
  cases stepEffect_of_step step with
  | outcome _ => exact le_rfl
  | orphan _ _ => exact le_rfl
  | reaper _ _ => exact le_rfl
  | exit _ _ exits => exact log_length_of_effect (effect_of_step exits)
  | parent moves => exact log_length_of_effect (effect_of_step moves)

theorem Carried.terminated (carried : Carried listed command spawned)
    (ended : spawned.outcome ≠ none) :
    (spawned.reaper.procs command).state ≠ .running := by
  obtain ⟨outcome, known⟩ := Option.ne_none_iff_exists'.mp ended
  exact (carried.ended outcome known).1

/-- The end of an orphan does not delay the subreaper. -/
theorem Pending.of_orphan {pid : ι} {status : Status Signal} {reaper : Family ι Signal}
    (pending : Pending spawned) (carried : Carried listed command spawned)
    (distinct : pid ≠ command)
    (ends : spawned.reaper.step (handles command) (.ended pid status []) = some reaper) :
    Pending { spawned with reaper := reaper } ∧
      owed command { spawned with reaper := reaper } ≤ owed command spawned := by
  refine ⟨⟨pending.ended, pending.busy⟩, Nat.add_le_add_right ?_ _⟩
  exact remaining_of_ended carried.reaperCall (Ne.symm distinct)
    (carried.terminated pending.ended) (settled_of_reachable carried.reaper)
    (attended_of_reachable carried.reaper) (effect_of_step ends)

/-- The subreaper makes a step of its call. -/
theorem Pending.of_reaper {move : Move ι} {reaper : Family ι Signal} (pending : Pending spawned)
    (carried : Carried listed command spawned) (log : spawned.reaper.log = [])
    (moves : spawned.reaper.step (handles command) (move.action command (.wait true true)) =
      some reaper) :
    Pending { spawned with reaper := reaper } ∧
      owed command { spawned with reaper := reaper } + (if move.isWork then 1 else 0) ≤
        owed command spawned := by
  refine ⟨⟨pending.ended, pending.busy⟩, ?_⟩
  have paid := remaining_of_move carried.reaperCall log (carried.terminated pending.ended)
    (settled_of_reachable carried.reaper) (attended_of_reachable carried.reaper)
    (effect_of_step moves)
  change remaining reaper command + parentOwed spawned + (if move.isWork then 1 else 0) ≤
    remaining spawned.reaper command + parentOwed spawned
  omega

/-- The subreaper ends, and the parent can go on. -/
theorem Pending.of_exit {outcome : Outcome Signal} {parent : Family Unit Signal}
    (pending : Pending spawned) (carried : Carried listed command spawned)
    (known : spawned.outcome = some outcome)
    (exits : spawned.parent.step (fun _ => true)
      (.returned () outcome.result (encode outcome.result)) = some parent) :
    Pending { spawned with parent := parent } ∧
      owed command { spawned with parent := parent } + 1 ≤ owed command spawned := by
  have effect := effect_of_step exits
  cases effect with
  | returned running _ =>
      refine ⟨⟨pending.ended, pending.busy⟩, ?_⟩
      have one : unreaped (Function.update spawned.parent.procs () (⟨.zombie (.exited 0),
          encode outcome.result, some (outcome.result, encode outcome.result)⟩ :
            Proc Signal)) ≤ 1 := unreaped_le_card _
      cases parent : spawned.parent.parent with
      | wait pid call dead polls =>
          simp only [owed, parentOwed, running, known, parent, debt, ProcState.isRunning,
            Option.elim_some, Function.update_self, if_true, Bool.false_eq_true, if_false]
          omega
      | idle => exact absurd parent pending.busy
      | read pid call dead status buffer =>
          have reaped := (settled_of_reachable carried.parent).reading parent
          rw [running] at reaped
          contradiction
      | signal pid signal dead =>
          have makes := carried.parentCall.parent
          rw [parent] at makes
          exact makes.elim

/-- A step of the parent. -/
theorem Pending.of_parent {move : Move Unit} {parent : Family Unit Signal}
    (pending : Pending spawned) (carried : Carried listed command spawned)
    (moves : spawned.parent.step (fun _ => true) (move.action () (.wait true false)) =
      some parent) :
    spawned.parent.log.length < parent.log.length ∨
      Pending { spawned with parent := parent } ∧
        owed command { spawned with parent := parent } + (if move.isWork then 1 else 0) ≤
          owed command spawned := by
  have effect := effect_of_step moves
  have settled := settled_of_reachable carried.parent
  have survives := Move.not_ends () (.wait true false : Call Signal) move
  by_cases running : (spawned.parent.procs ()).state = .running
  · -- the subreaper runs: the parent is blocked
    cases move with
    | wait => exact absurd (idle_of_call effect) pending.busy
    | waitpid pick =>
        cases effect with
        | reapsOwn waiting zombie =>
            rw [running] at zombie
            contradiction
        | reapsOther _ _ distinct _ => exact absurd rfl distinct
        | findsNothing waiting _ noBlock =>
            obtain ⟨_, rfl⟩ := carried.parentCall.of_waiting waiting
            contradiction
        | findsNobody waiting _ reaped =>
            rw [running] at reaped
            contradiction
    | read n =>
        cases effect with
        | reads reading _ _ =>
            rw [settled.reading reading] at running
            contradiction
        | concludes reading _ =>
            rw [settled.reading reading] at running
            contradiction
    | interrupted =>
        cases effect
        exact Or.inr ⟨⟨pending.ended, pending.busy⟩, le_rfl⟩
  · have awaits := carried.parentCall.awaits pending.busy running
    rcases awaits.of_effect settled (attended_of_reachable carried.parent) effect with
      returned | ⟨still, paid⟩
    · exact Or.inl returned
    · have before : parentOwed spawned = debt spawned.parent := by
        rw [parentOwed, if_neg (by simpa [ProcState.isRunning_iff] using running)]
      have after : (parent.procs ()).state ≠ .running :=
        fun runs => running ((running_iff_of_effect effect survives).mp runs)
      refine Or.inr ⟨⟨pending.ended, still.not_idle⟩, ?_⟩
      rw [owed, owed, before, parentOwed,
        if_neg (by simpa [ProcState.isRunning_iff] using after), Nat.add_assoc]
      apply Nat.add_le_add_left
      cases move with
      | wait => exact absurd (idle_of_call effect) pending.busy
      | waitpid pick => exact paid
      | read n => exact paid
      | interrupted => exact paid

/-- A step ends the parent's `wait`, or pays for itself. -/
theorem Pending.of_step (pending : Pending spawned) (carried : Carried listed command spawned)
    (step : spawned.step listed command action = some next) :
    spawned.parent.log.length < next.parent.log.length ∨
      Pending next ∧ owed command next + (if action.isWork then 1 else 0) ≤
        owed command spawned := by
  cases stepEffect_of_step step with
  | outcome ends =>
      have running := (proc_of_outcome (effect_of_step ends)).1
      exact absurd running (carried.terminated pending.ended)
  | orphan distinct ends => exact Or.inr (pending.of_orphan carried distinct ends)
  | reaper log moves =>
      exact Or.inr (pending.of_reaper carried log (carried.step_of_reaperStep moves))
  | exit log reply exits =>
      obtain ⟨outcome, known, rfl⟩ := carried.of_logged (log ▸ List.mem_cons_self) reply
      exact Or.inr (pending.of_exit carried known exits)
  | parent moves => exact pending.of_parent carried moves

theorem isSome_reaperStep {reaper : Family ι Signal} {move : Move ι}
    (enabled : (reaper.step (handles command) (move.action command (.wait true true))).isSome) :
    (reaperStep listed command reaper move).isSome := by
  unfold reaperStep
  split
  · split
    · rfl
    · exact enabled
  · exact enabled

omit [ToString Signal] in
/-- A step of a call as a step of a process that waits. -/
theorem exists_move_of_isCallStep {κ : Type u} (child : κ) (call : Call Signal)
    {action : Child.Action κ Signal} (callStep : action.isCallStep = true) :
    ∃ move : Move κ, move.isWork = true ∧ move.action child call = action := by
  cases action with
  | waitpid pick => exact ⟨.waitpid pick, rfl, rfl⟩
  | read n => exact ⟨.read n, rfl, rfl⟩
  | returned => contradiction
  | ended => contradiction
  | call => contradiction
  | interrupted => contradiction
  | signal => contradiction

/-- The subreaper or the parent has a next step. -/
theorem Pending.enabled (pending : Pending spawned) (carried : Carried listed command spawned) :
    ∃ action : Action ι Signal, action.isWork = true ∧
      (system listed command args).Enabled spawned action := by
  by_cases running : (spawned.parent.procs ()).state = .running
  · have terminated := carried.terminated pending.ended
    cases log : spawned.reaper.log with
    | nil =>
        by_cases busy : spawned.reaper.parent ≠ .idle
        · obtain ⟨_, callStep, _, enabled⟩ := callStep_enabled
            (settled_of_reachable carried.reaper) (attended_of_reachable carried.reaper)
            (carried.reaperCall.awaits busy terminated)
          obtain ⟨move, work, rfl⟩ :=
            exists_move_of_isCallStep command (.wait true true) callStep
          refine ⟨.reaper move, work, ?_⟩
          simp only [System.Enabled, system, Spawned.step, log, Option.isSome_map]
          exact isSome_reaperStep enabled
        · rw [ne_eq, not_not] at busy
          refine ⟨.reaper .wait, rfl, ?_⟩
          simp only [System.Enabled, system, Spawned.step, log, Option.isSome_map]
          apply isSome_reaperStep
          simp only [Move.action, Family.step, busy, handles, decide_true, if_true]
          split <;> rfl
    | cons entry older =>
        have member : entry ∈ spawned.reaper.log := by simp [log]
        obtain ⟨result, reply⟩ := (truthful_of_reachable carried.reaper).wait entry member true
          (carried.reaperCall.logged entry member).2
        obtain ⟨child, call, dead, _⟩ := entry
        dsimp only at reply
        subst reply
        refine ⟨.exit, rfl, ?_⟩
        simp [System.Enabled, system, Spawned.step, log, Family.step, Family.terminate, running]
  · obtain ⟨_, callStep, _, enabled⟩ := callStep_enabled (settled_of_reachable carried.parent)
      (attended_of_reachable carried.parent) (carried.parentCall.awaits pending.busy running)
    obtain ⟨move, work, rfl⟩ := exists_move_of_isCallStep () (.wait true false) callStep
    refine ⟨.parent move, work, ?_⟩
    simpa [System.Enabled, system, Spawned.step, familySystem] using enabled

/-- A step of a `wait` for a command that has ended is not its end. -/
theorem Carried.of_step_of_pending (carried : Carried listed command spawned)
    (pending : Pending spawned) (step : spawned.step listed command action = some next) :
    Carried listed command next := by
  refine carried.of_step ?_ step
  rintro outcome rfl
  cases stepEffect_of_step step with
  | outcome ends =>
      exact absurd (proc_of_outcome (effect_of_step ends)).1 (carried.terminated pending.ended)

/-- A `wait` that has not returned has not yet made as many steps as it owes. -/
theorem work_le_owed (carried : Carried listed command spawned) (pending : Pending spawned)
    {actions : List (Action ι Signal)} {last : Spawned ι Signal}
    (run : (system listed command args).exec spawned actions = some last)
    (unfinished : last.parent.log.length = spawned.parent.log.length) :
    actions.countP Action.isWork ≤ owed command spawned := by
  rw [← System.execUnder_true] at run
  apply System.countP_le_of_pays
    (fun spawned => Carried listed command spawned ∧ Pending spawned)
    (fun spawned => spawned.parent.log.length) (owed command) Action.isWork ?_ ?_
    ⟨carried, pending⟩ run unfinished
  · exact fun _ _ _ step => log_length_of_step step
  · rintro state action next ⟨carried, pending⟩ _ step
    rcases pending.of_step carried step with returned | ⟨still, paid⟩
    · exact Or.inl returned
    · exact Or.inr ⟨⟨carried.of_step_of_pending pending step, still⟩, paid⟩

/-- What the parent has been told is the outcome of the command; and once the
command has ended, the subreaper or the parent has a next step, and only so many
are left until the parent's `wait` has returned. -/
structure Reported (listed : Signal → Bool) (command : ι) (args : List String)
    (spawned : Spawned ι Signal) : Prop where
  reports : ∀ entry ∈ spawned.parent.log, ∃ outcome concluded, spawned.outcome = some outcome ∧
    entry.reply = .wait (some concluded) ∧ Reports outcome concluded
  proceeds : Pending spawned → ∃ action : Action ι Signal, action.isWork = true ∧
    (system listed command args).Enabled spawned action
  returns : Pending spawned → ∀ actions last,
    (system listed command args).exec spawned actions = some last →
      owed command spawned < actions.countP Action.isWork →
      spawned.parent.log.length < last.parent.log.length

theorem Carried.reported (carried : Carried listed command spawned) :
    Reported listed command args spawned := by
  constructor
  case reports => exact fun entry member => carried.reports member
  case proceeds => exact fun pending => pending.enabled carried
  case returns =>
    intro pending actions last run more
    have grown : spawned.parent.log.length ≤ last.parent.log.length := by
      rw [← System.execUnder_true] at run
      exact System.le_of_execUnder (fun spawned => spawned.parent.log.length)
        (fun _ _ _ step => log_length_of_step step) run
    by_contra unfinished
    have paid := work_le_owed carried pending run (by omega)
    omega

/-! ## A command that is lost -/

/-- The subreaper has reaped the command without a status, and waits for it; the
parent waits for the subreaper. -/
structure Lost (command : ι) (spawned : Spawned ι Signal) : Prop where
  ended : spawned.outcome ≠ none
  reaped : (spawned.reaper.procs command).state = .reaped
  log : spawned.reaper.log = []
  waits : ∃ dead polls, spawned.reaper.parent = .wait command (.wait true true) dead polls
  running : (spawned.parent.procs ()).state = .running
  parentLog : spawned.parent.log = []
  parentWaits : ∃ dead polls, spawned.parent.parent = .wait () (.wait true false) dead polls

omit [DecidableEq ι] [Fintype ι] [ToString Signal] in
theorem Lost.pending (lost : Lost command spawned) : Pending spawned := by
  obtain ⟨dead, polls, waiting⟩ := lost.parentWaits
  exact ⟨lost.ended, by simp [waiting]⟩

omit [Fintype ι] [ToString Signal] in
/-- The subreaper reaps an orphan and goes on polling. -/
theorem Lost.reap {pick : ι} {status : Status Signal} {dead : Bool} (lost : Lost command spawned)
    (zombie : (spawned.reaper.procs pick).state = .zombie status) (polls : Nat) :
    Lost command { spawned with reaper := { spawned.reaper with
      procs := reap spawned.reaper.procs pick
      parent := .wait command (.wait true true) dead polls } } := by
  have distinct : command ≠ pick := by
    rintro rfl
    rw [lost.reaped] at zombie
    contradiction
  constructor
  case reaped => simp [Child.reap, distinct, lost.reaped]
  case waits => exact ⟨dead, polls, rfl⟩
  case ended => exact lost.ended
  case log => exact lost.log
  case running => exact lost.running
  case parentLog => exact lost.parentLog
  case parentWaits => exact lost.parentWaits

/-- The subreaper polls, and finds an orphan or nobody. -/
theorem Lost.of_reaper {move : Move ι} {reaper : Family ι Signal} (lost : Lost command spawned)
    (moves : reaperStep listed command spawned.reaper move = some reaper) :
    Lost command { spawned with reaper := reaper } := by
  obtain ⟨dead, polls, waiting⟩ := lost.waits
  cases reaperEffect_of_step moves with
  | loses waits zombie _ =>
      rw [waiting] at waits
      cases waits
      exact lost.reap zombie _
  | step moves =>
      cases move with
      | wait =>
          have idle := idle_of_call (effect_of_step moves)
          simp [waiting] at idle
      | waitpid pick =>
          cases effect_of_step moves with
          | reapsOwn waits zombie =>
              rw [waiting] at waits
              cases waits
              rw [lost.reaped] at zombie
              contradiction
          | reapsOther waits _ _ zombie =>
              rw [waiting] at waits
              cases waits
              obtain ⟨status, zombie⟩ := ProcState.isZombie_iff.mp zombie
              exact lost.reap zombie _
          | findsNothing waits _ noBlock =>
              rw [waiting] at waits
              cases waits
              contradiction
          | findsNobody waits _ _ =>
              rw [waiting] at waits
              cases waits
              exact ⟨lost.ended, lost.reaped, lost.log, ⟨dead, _, rfl⟩, lost.running,
                lost.parentLog, lost.parentWaits⟩
      | read n => cases effect_of_step moves <;> simp_all
      | interrupted =>
          cases effect_of_step moves
          exact lost

omit [DecidableEq ι] [Fintype ι] in
/-- The parent is blocked in its `waitpid`. -/
theorem Lost.of_parent {move : Move Unit} {parent : Family Unit Signal}
    (lost : Lost command spawned)
    (moves : spawned.parent.step (fun _ => true) (move.action () (.wait true false)) =
      some parent) : parent = spawned.parent := by
  obtain ⟨dead, polls, waiting⟩ := lost.parentWaits
  have effect := effect_of_step moves
  cases move with
  | wait =>
      have idle := idle_of_call effect
      simp [waiting] at idle
  | waitpid pick =>
      cases effect with
      | reapsOwn waits zombie =>
          rw [lost.running] at zombie
          contradiction
      | reapsOther _ _ distinct _ => exact absurd rfl distinct
      | findsNothing waits _ noBlock =>
          rw [waiting] at waits
          cases waits
          contradiction
      | findsNobody _ _ reaped =>
          rw [lost.running] at reaped
          contradiction
  | read n =>
      cases effect <;> simp_all
  | interrupted =>
      cases effect
      rfl

/-- A lost command stays lost. -/
theorem Lost.of_step (lost : Lost command spawned)
    (step : spawned.step listed command action = some next) : Lost command next := by
  cases stepEffect_of_step step with
  | outcome ends =>
      have running := (proc_of_outcome (effect_of_step ends)).1
      rw [lost.reaped] at running
      contradiction
  | @orphan pid _ reaper distinct ends =>
      cases effect_of_step ends with
      | ended _ =>
          refine ⟨lost.ended, ?_, lost.log, lost.waits, lost.running, lost.parentLog,
            lost.parentWaits⟩
          simp [Function.update_of_ne (Ne.symm distinct), lost.reaped]
  | reaper _ moves => exact lost.of_reaper moves
  | exit log _ _ =>
      rw [lost.log] at log
      contradiction
  | parent moves =>
      rw [lost.of_parent moves]
      exact lost

theorem Lost.of_exec {actions : List (Action ι Signal)} {last : Spawned ι Signal}
    (lost : Lost command spawned)
    (run : (system listed command args).exec spawned actions = some last) : Lost command last := by
  induction actions generalizing spawned with
  | nil =>
      cases run
      exact lost
  | cons action rest ih =>
      rw [System.exec_cons, Option.bind_eq_some_iff] at run
      obtain ⟨next, step, restRun⟩ := run
      exact ih (lost.of_step step) restRun

/-- As long as some step is enabled in every state, the subreaper and the parent
make any number of them. -/
theorem Lost.exists_exec {outcome : Outcome Signal} (lost : Lost command spawned)
    (reported : ∀ spawned : Spawned ι Signal,
      (system listed command args).ReachableUnder (EndsBy outcome) spawned →
        Reported listed command args spawned)
    (reachable : (system listed command args).ReachableUnder (EndsBy outcome) spawned)
    (count : Nat) : ∃ actions last, (system listed command args).exec spawned actions = some last ∧
      actions.countP Action.isWork = count := by
  induction count generalizing spawned with
  | zero => exact ⟨[], spawned, rfl, rfl⟩
  | succ count ih =>
      obtain ⟨action, work, enabled⟩ := (reported spawned reachable).proceeds lost.pending
      obtain ⟨next, step⟩ := Option.isSome_iff_exists.mp enabled
      have allowed : EndsBy outcome spawned action := by
        cases action with
        | outcome other => contradiction
        | orphan pid status => contradiction
        | reaper move => trivial
        | exit => trivial
        | parent move => trivial
      obtain ⟨rest, last, restRun, counted⟩ := ih (lost.of_step step) (reachable.step allowed step)
      refine ⟨action :: rest, last, ?_, ?_⟩
      · rw [System.exec_cons, step]
        exact restRun
      · rw [List.countP_cons_of_pos work, counted]

/-- A command dies while the subreaper and the parent wait; the subreaper polls. -/
def losingRun (command : ι) (signal : Signal) : List (Action ι Signal) :=
  [.parent .wait, .reaper .wait, .outcome (.signaled signal), .reaper (.waitpid command)]

theorem exists_lost (command : ι) {signal : Signal} (unlisted : listed signal = false)
    (clones : ∃ cArgs, spawn args = .clones cArgs) : ∃ spawned : Spawned ι Signal,
      (system listed command args).ReachableUnder (EndsBy (.signaled signal)) spawned ∧
        spawned.outcome = some (.signaled signal) ∧ Lost command spawned := by
  have start : (system listed command args).ReachableUnder (EndsBy (.signaled signal))
      (initial : Spawned ι Signal) := .init ⟨clones, rfl⟩
  have run : (system listed command args).exec initial (losingRun command signal) = some
      { outcome := some (.signaled signal)
        reaper := { Family.initial with
          procs := reap (Function.update Family.initial.procs command
            (⟨.zombie (.signaled signal), [], none⟩ : Proc Signal)) command
          parent := .wait command (.wait true true) false 1 }
        parent := { Family.initial with parent := .wait () (.wait true false) false 0 } } := by
    simp [losingRun, System.exec, system, Spawned.step, initial, Move.action, Family.step,
      Family.initial, reaperStep, handles, Outcome.ends, Family.terminate, ProcState.isUnlisted,
      ProcState.isRunning, unlisted]
  refine ⟨_, start.of_exec ?_ run, rfl, ?_⟩
  · simp [losingRun, EndsBy]
  · exact ⟨by simp, by simp [reap], rfl, ⟨_, _, rfl⟩, rfl, rfl, _, _, rfl⟩

/-- The parent's `wait` reports every outcome of the command and returns, unless
the command dies by a signal that the `Signal` of `nix` lacks. -/
theorem spawn_reports_iff (nonempty : args ≠ []) (noNul : ∀ arg ∈ args, 0 ∉ asBytes arg)
    (listed : Signal → Bool) (command : ι) (outcome : Outcome Signal) :
    (∀ spawned, (system listed command args).ReachableUnder (EndsBy outcome) spawned →
      Reported listed command args spawned) ↔ outcome.isListed listed = true := by
  constructor
  · intro reported
    by_contra notListed
    cases outcome with
    | execFails error => exact notListed rfl
    | exited code => exact notListed rfl
    | signaled signal =>
        have unlisted : listed signal = false := Bool.eq_false_iff.mpr notListed
        obtain ⟨spawned, reachable, _, lost⟩ := exists_lost command unlisted
          (exists_spawn_eq_clones_iff.mpr ⟨nonempty, noNul⟩)
        obtain ⟨actions, last, run, counted⟩ :=
          lost.exists_exec reported reachable (owed command spawned + 1)
        have returned := (reported spawned reachable).returns lost.pending actions last run
          (by omega)
        simp [(lost.of_exec run).parentLog] at returned
  · intro isListed spawned reachable
    exact (carried_of_reachable isListed reachable).reported

/-- The command leaves an orphan that ends first, and exits with code 3. -/
def orphanRun : List (Action (Fin 2) Nat) :=
  [.parent .wait, .reaper .wait, .orphan 1 (.exited 7), .reaper (.waitpid 1),
    .outcome (.exited 3), .reaper (.waitpid 0), .reaper (.read 1), .exit, .parent (.waitpid ()),
    .parent (.read 32), .parent (.read 1)]

/-- The signals from 1 to 31. -/
def standard (signal : Nat) : Bool :=
  decide (1 ≤ signal ∧ signal ≤ 31)

/-- What the parent is told of this command. -/
def toldCode : Result :=
  .error "Child process error: Child process exited with code 3"

theorem spawn_reports_iff_exitCode :
    ∃ spawned : Spawned (Fin 2) Nat, spawned.outcome = some (.exited 3) ∧
      spawned.parent.log = [⟨(), .wait true false, false, .wait (some toldCode)⟩] ∧
      Reports (.exited 3 : Outcome Nat) toldCode := by
  have start :
      (system standard (0 : Fin 2) ["false"]).ReachableUnder (EndsBy (.exited 3)) initial :=
    .init ⟨exists_spawn_eq_clones_iff.mpr (by decide), rfl⟩
  have run : (((system standard (0 : Fin 2) ["false"]).exec initial orphanRun).any fun spawned =>
      spawned.outcome == some (.exited 3) &&
        spawned.parent.log == [⟨(), .wait true false, false, .wait (some toldCode)⟩]) = true := by
    decide
  obtain ⟨spawned, ends, here⟩ := (Option.any_eq_true _ _).mp run
  simp only [Bool.and_eq_true, beq_iff_eq] at here
  have reported := (spawn_reports_iff (by decide) (by decide) standard (0 : Fin 2)
    (.exited 3)).mpr rfl spawned (start.of_exec (by simp [orphanRun, EndsBy]) ends)
  obtain ⟨outcome, concluded, known, reply, reports⟩ :=
    reported.reports _ (by rw [here.2]; exact List.mem_cons_self)
  rw [here.1] at known
  cases known
  cases reply
  exact ⟨spawned, here.1, here.2, reports⟩

/-- The parent of a command that died by signal 34 waits for ever. -/
theorem realtime_signal_lost :
    ∃ spawned : Spawned (Fin 1) Nat, (system standard 0 ["sleep", "9"]).Reachable spawned ∧
      spawned.outcome = some (.signaled 34) ∧ Pending spawned ∧
      ∀ actions last, (system standard 0 ["sleep", "9"]).exec spawned actions = some last →
        last.parent.log = [] := by
  have unlisted : standard 34 = false := by decide
  have clones : ∃ cArgs, spawn ["sleep", "9"] = .clones cArgs :=
    exists_spawn_eq_clones_iff.mpr (by decide)
  obtain ⟨spawned, reachable, ended, lost⟩ := exists_lost (0 : Fin 1) unlisted clones
  exact ⟨spawned, reachable.reachable, ended, lost.pending,
    fun _ _ run => (lost.of_exec run).parentLog⟩

end Spawned

end Schtest.Child
