import Schtest.Child.Family
import Mathlib.Algebra.GroupWithZero.Nat

/-!
# The verdict of a handle

One `Child` handle with every answer that the operating system may give: its
`waitpid`s may report other children, errors or nothing at all, and its `read`s
and signals may fail.  A report of the child's own end is followed by reading
the pipe, and the result is kept in the handle.
-/

namespace Schtest.Child

open Schtest.Transition

universe u v

variable {ι : Type u} {Signal : Type v}

/-! ## A handle and its answers -/

/-- What `waitpid` answers. -/
inductive WaitAnswer (ι : Type u) (Signal : Type v)
  | status (reported : ι) (status : Status Signal)
  | stillAlive
  /-- Any other status, or an error. -/
  | other

/-- What `read` answers.  No bytes are the end of the file. -/
inductive ReadAnswer
  | bytes (chunk : List UInt8)
  | interrupted
  | failed

/-- For whom `self.wait` runs.  `drop` calls `kill` and then `wait`. -/
inductive Caller (Signal : Type v)
  | alive
  | wait (block all : Bool) (dropping : Bool)
  | kill (signal : Signal) (dropping : Bool)

namespace Caller

/-- Whether `waitpid` is called without `WNOHANG`. -/
def block : Caller Signal → Bool
  | .wait block _ _ => block
  | _ => false

/-- Whether `waitpid` is called for any child. -/
def all : Caller Signal → Bool
  | .wait _ all _ => all
  | _ => false

end Caller

/-- What happens at a handle, in the order of its log. -/
inductive Event (ι : Type u) (Signal : Type v)
  | called (call : Call Signal)
  | dropping
  | waitpid (target : Option ι) (answer : WaitAnswer ι Signal)
  | read (answer : ReadAnswer)
  | killed (target : ι) (signal : Signal) (answer : Result)
  | replied (reply : Reply)

/-- Where the handle is. -/
inductive HandlePc (Signal : Type v)
  | idle
  /-- About to call `waitpid`. -/
  | wait (caller : Caller Signal)
  /-- The child has ended: reading its pipe. -/
  | read (caller : Caller Signal) (status : Status Signal) (buffer : List UInt8)
  /-- In `kill`, the child is alive: about to send the signal. -/
  | signal (signal : Signal) (dropping : Bool)
  | dropped

/-- A `Child`: its result, where its calls are, and what they did. -/
structure Handle (ι : Type u) (Signal : Type v) where
  result : Option Result
  pc : HandlePc Signal
  log : List (Event ι Signal)

/-- The steps of a handle: calls, and answers of the system. -/
inductive HandleAction (ι : Type u) (Signal : Type v)
  | call (call : Call Signal)
  | drop
  | waitpid (answer : WaitAnswer ι Signal)
  | read (answer : ReadAnswer)
  | kill (answer : Result)

/-- `match result { Ok(_) => Ok(()), Err(e) => Err(anyhow!("{}", e)) }`. -/
def recreate : Result → Result
  | .ok _ => .ok ()
  | .error text => .error text

@[simp]
theorem recreate_eq (result : Result) : recreate result = result := by
  cases result <;> rfl

namespace Handle

/-- Adds an event to the log. -/
def record (handle : Handle ι Signal) (event : Event ι Signal) : Handle ι Signal :=
  { handle with log := event :: handle.log }

/-- The call returns. -/
def reply (handle : Handle ι Signal) (reply : Reply) : Handle ι Signal :=
  { handle with pc := .idle, log := .replied reply :: handle.log }

/-- `kill` has returned.  In `drop`, `self.wait(true, false)` follows. -/
def finishKill (handle : Handle ι Signal) (dropping : Bool) (result : Result) :
    Handle ι Signal :=
  if dropping then
    match handle.result with
    | some _ => { handle with pc := .dropped }
    | none => { handle with pc := .wait (.wait true false true) }
  else handle.reply (.kill result)

/-- `self.wait` has returned to the method that called it. -/
def finishWait (handle : Handle ι Signal) (caller : Caller Signal) (result : Option Result) :
    Handle ι Signal :=
  match caller with
  | .alive => handle.reply (.alive result.isNone)
  | .wait _ _ dropping =>
      if dropping then { handle with pc := .dropped }
      else handle.reply (.wait result)
  | .kill signal dropping =>
      match result with
      | some _ => handle.finishKill dropping (.ok ())
      | none => { handle with pc := .signal signal dropping }

/-- The method begins: a kept result is all that it looks at. -/
def begin (handle : Handle ι Signal) (caller : Caller Signal) : Handle ι Signal :=
  match handle.result with
  | some result => handle.finishWait caller (some (recreate result))
  | none => { handle with pc := .wait caller }

end Handle

/-- The first caller of `wait`, before any kill of its own. -/
def Call.caller : Call Signal → Caller Signal
  | .alive => .alive
  | .wait block all => .wait block all false
  | .kill signal => .kill signal false

section Steps

variable [DecidableEq ι] [ToString Signal] (pid : ι) (sigkill : Signal)

/-- The loop of `wait` looks at an answer of `waitpid`. -/
def answerWaitpid (handle : Handle ι Signal) (caller : Caller Signal) :
    WaitAnswer ι Signal → Handle ι Signal
  | .status reported status =>
      -- another child goes unnoticed, and the loop calls `waitpid` again
      if reported = pid then { handle with pc := .read caller status [] } else handle
  | _ => if caller.block then handle else handle.finishWait caller none

/-- The loop over the pipe looks at an answer of `read`.  Behind it the result is
kept, and `self.wait(false, false)` returns it. -/
def answerRead (handle : Handle ι Signal) (caller : Caller Signal) (status : Status Signal)
    (buffer : List UInt8) : ReadAnswer → Handle ι Signal
  | .interrupted => handle
  | .bytes (byte :: rest) => { handle with pc := .read caller status (buffer ++ byte :: rest) }
  | _ =>
      let result := concludeStatus status buffer
      ({ handle with result := some result }).finishWait caller (some (recreate result))

omit [ToString Signal] in
theorem answerWaitpid_stillAlive (handle : Handle ι Signal) (caller : Caller Signal) :
    answerWaitpid pid handle caller .stillAlive =
      if caller.block then handle else handle.finishWait caller none :=
  rfl

omit [ToString Signal] in
theorem answerWaitpid_other (handle : Handle ι Signal) (caller : Caller Signal) :
    answerWaitpid pid handle caller .other =
      if caller.block then handle else handle.finishWait caller none :=
  rfl

omit [DecidableEq ι] in
/-- At the end of the file the result is kept. -/
theorem answerRead_nil (handle : Handle ι Signal) (caller : Caller Signal)
    (status : Status Signal) (buffer : List UInt8) :
    answerRead handle caller status buffer (.bytes []) =
      ({ handle with result := some (concludeStatus status buffer) }).finishWait caller
        (some (concludeStatus status buffer)) := by
  have kept : answerRead handle caller status buffer (.bytes []) =
      ({ handle with result := some (concludeStatus status buffer) }).finishWait caller
        (some (recreate (concludeStatus status buffer))) := rfl
  rw [kept, recreate_eq]

/-- `signal::kill(..).with_context(|| "Failed to kill child process")`. -/
def killResult : Result → Result
  | .ok _ => .ok ()
  | .error _ => .error "Failed to kill child process"

/-- One step of the handle of the child `pid`. -/
def handleStep (handle : Handle ι Signal) (action : HandleAction ι Signal) :
    Option (Handle ι Signal) :=
  match handle.pc, action with
  | .idle, .call call => some ((handle.record (.called call)).begin call.caller)
  | .idle, .drop => some ((handle.record .dropping).begin (.kill sigkill true))
  | .wait caller, .waitpid answer =>
      let target := if caller.all then none else some pid
      some (answerWaitpid pid (handle.record (.waitpid target answer)) caller answer)
  | .read caller status buffer, .read answer =>
      some (answerRead (handle.record (.read answer)) caller status buffer answer)
  | .signal signal dropping, .kill answer =>
      some ((handle.record (.killed pid signal answer)).finishKill dropping (killResult answer))
  | _, _ => none

/-- A new handle for a child, used with any calls and any answers. -/
def handleSystem : System (Handle ι Signal) (HandleAction ι Signal) where
  init handle := handle = ⟨none, .idle, []⟩
  step := handleStep pid sigkill

end Steps

/-! ## After the report -/

/-- `waitpid` reports that the child has terminated. -/
def Event.Reports (pid : ι) : Event ι Signal → Prop
  | .waitpid _ (.status reported _) => reported = pid
  | _ => False

/-- What may happen when the verdict is known: no `waitpid`, no signal, and only
replies that go with the verdict. -/
def Event.Final (verdict : Result) : Event ι Signal → Prop
  | .waitpid _ _ => False
  | .killed _ _ _ => False
  | .replied (.alive alive) => alive = false
  | .replied (.wait result) => result = some verdict
  | .replied (.kill result) => result = .ok ()
  | _ => True

/-- The handle keeps a verdict, and all is final since the report. -/
structure Concluded (pid : ι) (verdict : Result) (handle : Handle ι Signal) : Prop where
  kept : handle.result = some verdict
  reported : ∃ event ∈ handle.log, event.Reports pid
  final : FinalAfter (Event.Reports pid) (Event.Final verdict) handle.log

/-- What a handle knows of its child. -/
inductive Phase (pid : ι) (handle : Handle ι Signal) : Prop
  /-- No report of the end has come. -/
  | unreported (unkept : handle.result = none)
      (unreported : ∀ event ∈ handle.log, ¬ event.Reports pid)
      (elsewhere : ∀ caller status buffer, handle.pc ≠ .read caller status buffer)
  /-- It has come, and the pipe is being read. -/
  | reading (caller : Caller Signal) (status : Status Signal) (buffer : List UInt8)
      (atRead : handle.pc = .read caller status buffer)
      (reported : ∃ event ∈ handle.log, event.Reports pid)
      (final : ∀ verdict, FinalAfter (Event.Reports pid) (Event.Final verdict) handle.log)
  | concluded (verdict : Result) (concluded : Concluded pid verdict handle)
      (rests : handle.pc = .idle ∨ handle.pc = .dropped)

variable {pid : ι} {verdict : Result} {handle : Handle ι Signal}

theorem Concluded.record (concluded : Concluded pid verdict handle) {event : Event ι Signal}
    (final : event.Final verdict) : Concluded pid verdict (handle.record event) where
  kept := concluded.kept
  reported := by
    obtain ⟨report, member, reports⟩ := concluded.reported
    exact ⟨report, List.mem_cons_of_mem event member, reports⟩
  final := concluded.final.cons final

theorem Concluded.reply (concluded : Concluded pid verdict handle) {reply : Reply}
    (final : (Event.replied reply : Event ι Signal).Final verdict) :
    Concluded pid verdict (handle.reply reply) ∧ (handle.reply reply).pc = .idle := by
  have recorded := concluded.record final
  exact ⟨⟨recorded.kept, recorded.reported, recorded.final⟩, rfl⟩

/-- Whoever has called `self.wait`, its method comes to an end. -/
theorem Concluded.finishWait (concluded : Concluded pid verdict handle) (caller : Caller Signal) :
    Phase pid (handle.finishWait caller (some verdict)) := by
  cases caller with
  | alive =>
      have final : (Event.replied (.alive false) : Event ι Signal).Final verdict := rfl
      obtain ⟨replied, idle⟩ := concluded.reply final
      exact .concluded verdict replied (.inl idle)
  | wait block all dropping =>
      cases dropping with
      | false =>
          have final : (Event.replied (.wait (some verdict)) : Event ι Signal).Final verdict := rfl
          obtain ⟨replied, idle⟩ := concluded.reply final
          exact .concluded verdict replied (.inl idle)
      | true =>
          exact .concluded verdict ⟨concluded.kept, concluded.reported, concluded.final⟩ (.inr rfl)
  | kill signal dropping =>
      cases dropping with
      | false =>
          have final : (Event.replied (.kill (.ok ())) : Event ι Signal).Final verdict := rfl
          obtain ⟨replied, idle⟩ := concluded.reply final
          exact .concluded verdict replied (.inl idle)
      | true =>
          have dropped : handle.finishWait (.kill signal true) (some verdict) =
              { handle with pc := .dropped } := by
            simp [Handle.finishWait, Handle.finishKill, concluded.kept]
          rw [dropped]
          exact .concluded verdict ⟨concluded.kept, concluded.reported, concluded.final⟩ (.inr rfl)

/-! ## One step -/

theorem Handle.begin_of_kept (kept : handle.result = some verdict) (caller : Caller Signal) :
    handle.begin caller = handle.finishWait caller (some verdict) := by
  simp [Handle.begin, kept]

theorem Handle.begin_of_unkept (unkept : handle.result = none) (caller : Caller Signal) :
    handle.begin caller = { handle with pc := .wait caller } := by
  simp [Handle.begin, unkept]

/-- No report has come, and nothing is kept. -/
structure Unreported (pid : ι) (handle : Handle ι Signal) : Prop where
  unkept : handle.result = none
  unreported : ∀ event ∈ handle.log, ¬ event.Reports pid

theorem Unreported.record (fresh : Unreported pid handle) {event : Event ι Signal}
    (silent : ¬ event.Reports pid) : Unreported pid (handle.record event) where
  unkept := fresh.unkept
  unreported := List.forall_mem_cons.mpr ⟨silent, fresh.unreported⟩

theorem Unreported.phase (fresh : Unreported pid handle)
    (elsewhere : ∀ caller status buffer, handle.pc ≠ .read caller status buffer) :
    Phase pid handle :=
  .unreported fresh.unkept fresh.unreported elsewhere

theorem Unreported.reply (fresh : Unreported pid handle) (reply : Reply) :
    Phase pid (handle.reply reply) := by
  have silent : ¬ (Event.replied reply : Event ι Signal).Reports pid := not_false
  have recorded := fresh.record silent
  exact .unreported recorded.unkept recorded.unreported (by simp [Handle.reply])

theorem Unreported.finishKill (fresh : Unreported pid handle) (dropping : Bool)
    (result : Result) : Phase pid (handle.finishKill dropping result) := by
  unfold Handle.finishKill
  cases dropping with
  | false => exact fresh.reply _
  | true =>
      simp only [if_true, fresh.unkept]
      exact .unreported rfl fresh.unreported (by simp)

theorem Unreported.finishWait (fresh : Unreported pid handle) (caller : Caller Signal) :
    Phase pid (handle.finishWait caller none) := by
  cases caller with
  | alive => exact fresh.reply _
  | wait block all dropping =>
      cases dropping with
      | false => exact fresh.reply _
      | true => exact .unreported fresh.unkept fresh.unreported (by simp [Handle.finishWait])
  | kill signal dropping =>
      exact .unreported fresh.unkept fresh.unreported (by simp [Handle.finishWait])

/-- A method begins in a state of rest. -/
theorem Phase.begin (phase : Phase pid handle) (idle : handle.pc = .idle)
    {event : Event ι Signal} (silent : ¬ event.Reports pid)
    (final : ∀ verdict, event.Final verdict) (caller : Caller Signal) :
    Phase pid ((handle.record event).begin caller) := by
  cases phase with
  | unreported unkept unreported _ =>
      have fresh := Unreported.record ⟨unkept, unreported⟩ silent
      rw [Handle.begin_of_unkept fresh.unkept]
      exact .unreported fresh.unkept fresh.unreported (by simp)
  | reading caller status buffer atRead _ _ =>
      rw [idle] at atRead
      contradiction
  | concluded verdict concluded _ =>
      have recorded := concluded.record (final verdict)
      rw [Handle.begin_of_kept recorded.kept]
      exact recorded.finishWait caller

/-- Only a handle without a report calls `waitpid` or sends a signal. -/
theorem Phase.fresh (phase : Phase pid handle)
    (works : (∃ caller, handle.pc = .wait caller) ∨
      ∃ signal dropping, handle.pc = .signal signal dropping) : Unreported pid handle := by
  cases phase with
  | unreported unkept unreported _ => exact ⟨unkept, unreported⟩
  | reading caller status buffer atRead _ _ => simp [atRead] at works
  | concluded verdict _ rests =>
      rcases rests with idle | dropped
      · simp [idle] at works
      · simp [dropped] at works

variable [DecidableEq ι] [ToString Signal] {sigkill : Signal}

omit [ToString Signal] in
theorem Phase.waitpid_step (phase : Phase pid handle) {caller : Caller Signal}
    (waits : handle.pc = .wait caller) (target : Option ι) (answer : WaitAnswer ι Signal) :
    Phase pid (answerWaitpid pid (handle.record (.waitpid target answer)) caller answer) := by
  have fresh := phase.fresh (.inl ⟨caller, waits⟩)
  have unanswered (silent : ¬ (Event.waitpid target answer).Reports pid)
      (goes : answerWaitpid pid (handle.record (.waitpid target answer)) caller answer =
        if caller.block then handle.record (.waitpid target answer)
        else (handle.record (.waitpid target answer)).finishWait caller none) :
      Phase pid
        (answerWaitpid pid (handle.record (.waitpid target answer)) caller answer) := by
    rw [goes]
    split
    · exact (fresh.record silent).phase (by simp [Handle.record, waits])
    · exact (fresh.record silent).finishWait caller
  cases answer with
  | status reported status =>
      by_cases own : reported = pid
      · subst own
        rw [answerWaitpid, if_pos rfl]
        apply Phase.reading caller status [] rfl
        · exact ⟨_, List.mem_cons_self, rfl⟩
        · exact fun verdict => finalAfter_cons_of_unmarked _ fresh.unreported
      · rw [answerWaitpid, if_neg own]
        have silent : ¬ (Event.waitpid target (.status reported status)).Reports pid := own
        exact (fresh.record silent).phase (by simp [Handle.record, waits])
  | stillAlive =>
      exact unanswered not_false rfl
  | other =>
      exact unanswered not_false rfl

omit [DecidableEq ι] in
theorem Phase.read_step (phase : Phase pid handle) {caller : Caller Signal}
    {status : Status Signal} {buffer : List UInt8}
    (reads : handle.pc = .read caller status buffer) (answer : ReadAnswer) :
    Phase pid (answerRead (handle.record (.read answer)) caller status buffer answer) := by
  cases phase with
  | unreported _ _ elsewhere => exact absurd reads (elsewhere _ _ _)
  | concluded _ _ rests =>
      rw [reads] at rests
      rcases rests with idle | dropped <;> contradiction
  | reading _ _ _ _ reported final =>
      obtain ⟨report, member, reports⟩ := reported
      have still : ∃ event ∈ (handle.record (.read answer)).log, event.Reports pid :=
        ⟨report, List.mem_cons_of_mem _ member, reports⟩
      have finalNow (verdict : Result) :
          FinalAfter (Event.Reports pid) (Event.Final verdict)
            (handle.record (.read answer)).log :=
        (final verdict).cons trivial
      have keeps (result : Result) :
          Phase pid (({ handle.record (.read answer) with result := some result }).finishWait
            caller (some (recreate result))) := by
        rw [recreate_eq]
        have concluded : Concluded pid result
            { handle.record (.read answer) with result := some result } :=
          ⟨rfl, still, finalNow result⟩
        exact concluded.finishWait caller
      match answer with
      | .interrupted => exact .reading caller status buffer reads still finalNow
      | .bytes (byte :: rest) => exact .reading caller status _ rfl still finalNow
      | .bytes [] => exact keeps _
      | .failed => exact keeps _

/-- Every step keeps to the phases. -/
theorem Phase.step (phase : Phase pid handle) {action : HandleAction ι Signal}
    {next : Handle ι Signal} (step : handleStep pid sigkill handle action = some next) :
    Phase pid next := by
  unfold handleStep at step
  split at step
  case h_1 call idle =>
    cases step
    have silent : ¬ (Event.called call : Event ι Signal).Reports pid := not_false
    exact phase.begin idle silent (fun _ => trivial) call.caller
  case h_2 idle =>
    cases step
    have silent : ¬ (Event.dropping : Event ι Signal).Reports pid := not_false
    exact phase.begin idle silent (fun _ => trivial) (.kill sigkill true)
  case h_3 caller answer waits =>
    cases step
    exact phase.waitpid_step waits _ answer
  case h_4 caller status buffer answer reads =>
    cases step
    exact phase.read_step reads answer
  case h_5 signal dropping answer signals =>
    cases step
    have fresh := phase.fresh (.inr ⟨signal, dropping, signals⟩)
    have silent : ¬ (Event.killed pid signal answer : Event ι Signal).Reports pid := not_false
    exact (fresh.record silent).finishKill dropping _
  case h_6 => contradiction

/-! ## Whole runs -/

theorem phase_of_reachable (reachable : (handleSystem pid sigkill).Reachable handle) :
    Phase pid handle := by
  apply reachable.invariant
  case base =>
    rintro state rfl
    exact .unreported rfl (List.forall_mem_nil _) (by simp)
  case preserve =>
    intro state action next _ step phase
    exact phase.step step

/-- A handle that keeps a verdict answers each call with it at once. -/
theorem Concluded.call_step (concluded : Concluded pid verdict handle) (idle : handle.pc = .idle)
    (call : Call Signal) :
    handleStep pid sigkill handle (.call call) =
      some ((handle.record (.called call)).reply (call.reply (some verdict))) := by
  have kept : (handle.record (.called call)).result = some verdict := concluded.kept
  simp only [handleStep, idle, Handle.begin_of_kept kept]
  cases call <;> rfl

theorem Concluded.drop_step (concluded : Concluded pid verdict handle) (idle : handle.pc = .idle) :
    handleStep pid sigkill handle .drop =
      some { handle.record .dropping with pc := .dropped } := by
  have kept : (handle.record .dropping).result = some verdict := concluded.kept
  simp only [handleStep, idle, Handle.begin_of_kept kept, Handle.finishWait, Handle.finishKill,
    if_true, kept]

/-- Once `waitpid` has reported the end of the child, the handle calls neither
`waitpid` nor `kill` again, and all replies go with one verdict. -/
theorem verdict_is_final (reachable : (handleSystem pid sigkill).Reachable handle)
    (newer older : List (Event ι Signal)) (report : Event ι Signal)
    (log : handle.log = newer ++ report :: older) (reports : report.Reports pid) :
    ∃ verdict, (∀ event ∈ newer, event.Final verdict) ∧
      (handle.pc = .idle →
        (∀ call, (handleSystem pid sigkill).step handle (.call call) =
          some ((handle.record (.called call)).reply (call.reply (some verdict)))) ∧
        (handleSystem pid sigkill).step handle .drop =
          some { handle.record .dropping with pc := .dropped }) := by
  cases phase_of_reachable reachable with
  | unreported _ unreported _ =>
      have member : report ∈ handle.log := by
        rw [log]
        exact List.mem_append_right newer List.mem_cons_self
      exact absurd reports (unreported report member)
  | reading caller status buffer atRead _ final =>
      refine ⟨.ok (), ?_, ?_⟩
      · have after := final (.ok ())
        rw [log] at after
        exact after.of_append reports
      · intro idle
        rw [idle] at atRead
        contradiction
  | concluded verdict concluded _ =>
      refine ⟨verdict, ?_, ?_⟩
      · have after := concluded.final
        rw [log] at after
        exact after.of_append reports
      · intro idle
        exact ⟨fun call => concluded.call_step idle call, concluded.drop_step idle⟩

/-- Another child, an error and a child that is still alive come first. -/
theorem verdict_is_final_run :
    ∃ (handle : Handle Nat String) (newer older : List (Event Nat String)),
      (handleSystem 7 "SIGKILL").Reachable handle ∧ newer.length = 7 ∧ older.length = 6 ∧
        handle.log = newer ++ .waitpid none (.status 7 (.exited 0)) :: older ∧
          ∃ verdict, (∀ event ∈ newer, event.Final verdict) ∧
            (handleSystem 7 "SIGKILL").step handle (.call .alive) =
              some ((handle.record (.called .alive)).reply (.alive false)) := by
  have initial : (handleSystem (7 : Nat) "SIGKILL").init ⟨none, .idle, []⟩ := rfl
  obtain ⟨handle, run, reachable⟩ := System.exists_exec_of_isSome
    [.call .alive, .waitpid .stillAlive, .call (.wait true true),
      .waitpid (.status 8 (.exited 1)), .waitpid .other, .waitpid (.status 7 (.exited 0)),
      .read .interrupted, .read (.bytes []), .call (.kill "SIGTERM"), .call (.wait false false)]
    initial rfl
  cases run
  obtain ⟨verdict, final, atRest⟩ := verdict_is_final reachable
    [.replied (.wait (some (.ok ()))), .called (.wait false false),
      .replied (.kill (.ok ())), .called (.kill "SIGTERM"),
      .replied (.wait (some (.ok ()))), .read (.bytes []), .read .interrupted]
    [.waitpid none .other, .waitpid none (.status 8 (.exited 1)), .called (.wait true true),
      .replied (.alive true), .waitpid (some 7) .stillAlive, .called .alive]
    (.waitpid none (.status 7 (.exited 0))) rfl rfl
  exact ⟨_, _, _, reachable, rfl, rfl, rfl, verdict, final, (atRest rfl).1 .alive⟩

end Schtest.Child
