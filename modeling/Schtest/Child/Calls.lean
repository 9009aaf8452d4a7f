import Schtest.Child.Verdict

/-!
# What the calls of a handle leave behind

`Drop` sends the signal, whose failure it ignores, and waits without a time limit.
Where it returns, the end of the child has been reported.  Until then, a handle on
which only `alive` is called leaves its child alone.
-/

namespace Schtest.Child

open Schtest.Transition

universe u v

variable {ι : Type u} {Signal : Type v} {pid : ι} {handle : Handle ι Signal}

/-- An answer of the system, as opposed to a call of the program. -/
def HandleAction.isAnswer : HandleAction ι Signal → Bool
  | .waitpid _ => true
  | .read _ => true
  | .kill _ => true
  | _ => false

/-- `Drop` waits until there is a result, and is over only then. -/
structure Blocking (handle : Handle ι Signal) : Prop where
  kept : handle.pc = .dropped → handle.result ≠ none
  blocks : ∀ block all, handle.pc = .wait (.wait block all true) → block = true

theorem Blocking.elsewhere (alive : handle.pc ≠ .dropped)
    (other : ∀ block all, handle.pc ≠ .wait (.wait block all true)) : Blocking handle where
  kept dropped := absurd dropped alive
  blocks block all waits := absurd waits (other block all)

theorem Blocking.reply (handle : Handle ι Signal) (reply : Reply) :
    Blocking (handle.reply reply) :=
  .elsewhere (by simp [Handle.reply]) (by simp [Handle.reply])

theorem Blocking.finishKill (handle : Handle ι Signal) (dropping : Bool) (result : Result) :
    Blocking (handle.finishKill dropping result) := by
  cases dropping with
  | false => exact Blocking.reply handle _
  | true =>
      cases kept : handle.result with
      | none =>
          simp only [Handle.finishKill, if_true, kept]
          constructor
          · simp
          · rintro block all waits
            cases waits
            rfl
      | some verdict =>
          simp only [Handle.finishKill, if_true, kept]
          constructor
          · simp
          · simp

theorem Blocking.finishWait {caller : Caller Signal} {result : Option Result}
    (ended : ∀ block all, caller = .wait block all true → handle.result ≠ none) :
    Blocking (handle.finishWait caller result) := by
  cases caller with
  | alive => exact Blocking.reply handle _
  | wait block all dropping =>
      cases dropping with
      | false => exact Blocking.reply handle _
      | true => exact ⟨fun _ => ended block all rfl, by simp [Handle.finishWait]⟩
  | kill signal dropping =>
      cases result with
      | some verdict => exact Blocking.finishKill handle dropping _
      | none => exact .elsewhere (by simp [Handle.finishWait]) (by simp [Handle.finishWait])

theorem Blocking.begin {caller : Caller Signal}
    (other : ∀ block all, caller ≠ .wait block all true) : Blocking (handle.begin caller) := by
  cases kept : handle.result with
  | some verdict =>
      rw [Handle.begin_of_kept kept]
      exact Blocking.finishWait fun block all same => absurd same (other block all)
  | none =>
      rw [Handle.begin_of_unkept kept]
      constructor
      · simp
      · intro block all waits
        cases waits
        exact absurd rfl (other block all)

theorem Blocking.record (blocking : Blocking handle) (event : Event ι Signal) :
    Blocking (handle.record event) :=
  ⟨blocking.kept, blocking.blocks⟩

section Dropped

variable [DecidableEq ι] [ToString Signal] {sigkill : Signal}

omit [ToString Signal] in
theorem Blocking.waitpid (blocking : Blocking handle) {caller : Caller Signal}
    (waits : handle.pc = .wait caller) (answer : WaitAnswer ι Signal) :
    Blocking (answerWaitpid pid handle caller answer) := by
  have unanswered : Blocking (if caller.block then handle else handle.finishWait caller none) := by
    split
    · exact blocking
    · rename_i polls
      apply Blocking.finishWait
      rintro block all rfl
      exact absurd (blocking.blocks block all waits) polls
  cases answer with
  | status reported status =>
      by_cases own : reported = pid
      · rw [answerWaitpid, if_pos own]
        exact .elsewhere (by simp) (by simp)
      · rw [answerWaitpid, if_neg own]
        exact blocking
  | stillAlive => exact unanswered
  | other => exact unanswered

omit [DecidableEq ι] in
theorem Blocking.read (blocking : Blocking handle) (caller : Caller Signal)
    (status : Status Signal) (buffer : List UInt8) (answer : ReadAnswer) :
    Blocking (answerRead handle caller status buffer answer) := by
  match answer with
  | .interrupted => exact blocking
  | .bytes (_ :: _) => exact .elsewhere (by simp [answerRead]) (by simp [answerRead])
  | .bytes [] => exact Blocking.finishWait fun _ _ _ => by simp
  | .failed => exact Blocking.finishWait fun _ _ _ => by simp

theorem Blocking.step (blocking : Blocking handle) {action : HandleAction ι Signal}
    {next : Handle ι Signal} (step : handleStep pid sigkill handle action = some next) :
    Blocking next := by
  unfold handleStep at step
  split at step
  case h_1 call idle =>
    cases step
    apply Blocking.begin
    cases call <;> simp [Call.caller]
  case h_2 idle =>
    cases step
    exact Blocking.begin (by simp)
  case h_3 caller answer waits =>
    cases step
    exact Blocking.waitpid (blocking.record _) waits answer
  case h_4 caller status buffer answer reads =>
    cases step
    exact Blocking.read (blocking.record _) caller status buffer answer
  case h_5 signal dropping answer signals =>
    cases step
    exact Blocking.finishKill _ _ _
  case h_6 => contradiction

theorem blocking_of_reachable (reachable : (handleSystem pid sigkill).Reachable handle) :
    Blocking handle := by
  apply reachable.invariant
  case base =>
    rintro state rfl
    exact ⟨by simp, by simp⟩
  case preserve =>
    intro state action next _ step blocking
    exact blocking.step step

end Dropped

/-! ## What a call returns -/

/-- What a call has returned. -/
def Handle.returned (handle : Handle ι Signal) : Option Reply :=
  match handle.pc, handle.log with
  | .idle, .replied reply :: _ => some reply
  | _, _ => none

theorem Handle.returned_eq_some_iff {reply : Reply} :
    handle.returned = some reply ↔
      handle.pc = .idle ∧ ∃ older, handle.log = .replied reply :: older := by
  unfold Handle.returned
  split
  case h_1 reply' older idle log =>
    rw [log]
    simp [idle]
  case h_2 other =>
    constructor
    · intro found
      cases found
    · rintro ⟨idle, older, log⟩
      exact absurd log (other reply older idle)

theorem Handle.returned_eq_none (busy : handle.pc ≠ .idle) : handle.returned = none := by
  rw [Option.eq_none_iff_forall_ne_some]
  intro reply returned
  exact busy (Handle.returned_eq_some_iff.mp returned).1

/-- A reply of the call goes with what the handle keeps. -/
def Call.Fits (kept : Option Result) : Call Signal → Reply → Prop
  | .alive, .alive told => told = kept.isNone
  | .wait block _, .wait result => result = kept ∧ (block = true → kept ≠ none)
  | .kill _, .kill result => result = .ok () ∨ kept = none
  | _, _ => False

/-- Where a call has come to. -/
inductive InCall (call : Call Signal) (handle : Handle ι Signal) : Prop
  | waiting : handle.pc = .wait call.caller → InCall call handle
  | reading (status : Status Signal) (buffer : List UInt8) :
      handle.pc = .read call.caller status buffer → InCall call handle
  | signalling (signal : Signal) : call = .kill signal → handle.pc = .signal signal false →
      InCall call handle
  | returned (reply : Reply) : handle.returned = some reply → call.Fits handle.result reply →
      InCall call handle

theorem InCall.of_reply {call : Call Signal} {reply : Reply}
    (fits : call.Fits handle.result reply) : InCall call (handle.reply reply) :=
  .returned reply rfl fits

/-- The end of the child is known. -/
theorem InCall.of_kept {verdict : Result} (kept : handle.result = some verdict)
    (call : Call Signal) : InCall call (handle.finishWait call.caller (some verdict)) := by
  cases call with
  | alive => exact .of_reply (by simp [Call.Fits, kept])
  | wait block all => exact .of_reply (by simp [Call.Fits, kept])
  | kill signal => exact .of_reply (by simp [Call.Fits])

/-- It is not, and the call does not wait for it. -/
theorem InCall.of_unkept {call : Call Signal} (unkept : handle.result = none)
    (polls : call.caller.block = false) : InCall call (handle.finishWait call.caller none) := by
  cases call with
  | alive => exact .of_reply (by simp [Call.Fits, unkept])
  | wait block all =>
      have polls : block = false := polls
      exact .of_reply (by simp [Call.Fits, unkept, polls])
  | kill signal => exact .signalling signal rfl rfl

theorem InCall.begin (handle : Handle ι Signal) (call : Call Signal) :
    InCall call (handle.begin call.caller) := by
  cases kept : handle.result with
  | some verdict =>
      rw [Handle.begin_of_kept kept]
      exact .of_kept kept call
  | none =>
      rw [Handle.begin_of_unkept kept]
      exact .waiting rfl

/-- A call that has come to rest has returned. -/
theorem InCall.exists_reply {call : Call Signal} (inCall : InCall call handle)
    (idle : handle.pc = .idle) :
    ∃ reply, handle.returned = some reply ∧ call.Fits handle.result reply := by
  cases inCall with
  | waiting here => cases idle.symm.trans here
  | reading status buffer here => cases idle.symm.trans here
  | signalling signal same here => cases idle.symm.trans here
  | returned reply returned fits => exact ⟨reply, returned, fits⟩

section InCall

variable [DecidableEq ι] [ToString Signal] {sigkill : Signal} {call : Call Signal}
  {action : HandleAction ι Signal} {next : Handle ι Signal}

theorem inCall_of_call (step : handleStep pid sigkill handle (.call call) = some next) :
    InCall call next := by
  unfold handleStep at step
  split at step <;> try contradiction
  case h_1 call' here same =>
    cases same
    cases step
    exact InCall.begin _ _

omit [ToString Signal] in
theorem InCall.waitpid (unkept : handle.result = none) (waits : handle.pc = .wait call.caller)
    (answer : WaitAnswer ι Signal) : InCall call (answerWaitpid pid handle call.caller answer) := by
  have unanswered : InCall call
      (if call.caller.block then handle else handle.finishWait call.caller none) := by
    split
    · exact .waiting waits
    · rename_i polls
      exact .of_unkept unkept (Bool.not_eq_true _ ▸ polls)
  cases answer with
  | status reported status =>
      by_cases own : reported = pid
      · rw [answerWaitpid, if_pos own]
        exact .reading status [] rfl
      · rw [answerWaitpid, if_neg own]
        exact .waiting waits
  | stillAlive => exact unanswered
  | other => exact unanswered

omit [DecidableEq ι] in
theorem InCall.read {status : Status Signal} {buffer : List UInt8}
    (reads : handle.pc = .read call.caller status buffer) (answer : ReadAnswer) :
    InCall call (answerRead handle call.caller status buffer answer) := by
  have keeps (result : Result) : InCall call
      (({ handle with result := some result }).finishWait call.caller
        (some (recreate result))) := by
    rw [recreate_eq]
    exact .of_kept rfl call
  match answer with
  | .interrupted => exact .reading status buffer reads
  | .bytes (_ :: _) => exact .reading status _ rfl
  | .bytes [] => exact keeps _
  | .failed => exact keeps _

/-- An answer leads on in the same call. -/
theorem InCall.step (inCall : InCall call handle) (phase : Phase pid handle)
    (answer : action.isAnswer = true)
    (step : handleStep pid sigkill handle action = some next) : InCall call next := by
  unfold handleStep at step
  split at step
  case h_1 => contradiction
  case h_2 => contradiction
  case h_3 caller answer waits =>
    cases step
    have unkept := (phase.fresh (.inl ⟨_, waits⟩)).unkept
    cases inCall with
    | waiting here =>
        rw [waits] at here
        cases here
        refine InCall.waitpid ?_ ?_ _
        · exact unkept
        · exact waits
    | reading status buffer here => cases waits.symm.trans here
    | signalling signal same here => cases waits.symm.trans here
    | returned reply returned fits =>
        cases waits.symm.trans (Handle.returned_eq_some_iff.mp returned).1
  case h_4 caller status buffer answer reads =>
    cases step
    cases inCall with
    | waiting here => cases reads.symm.trans here
    | reading status' buffer' here =>
        cases reads.symm.trans here
        refine InCall.read ?_ _
        exact reads
    | signalling signal same here => cases reads.symm.trans here
    | returned reply returned fits =>
        cases reads.symm.trans (Handle.returned_eq_some_iff.mp returned).1
  case h_5 signal dropping answer signals =>
    cases step
    have unkept := (phase.fresh (.inr ⟨_, _, signals⟩)).unkept
    cases inCall with
    | waiting here => cases signals.symm.trans here
    | reading status buffer here => cases signals.symm.trans here
    | signalling signal' same here =>
        cases signals.symm.trans here
        subst same
        exact .of_reply (.inr unkept)
    | returned reply returned fits =>
        cases signals.symm.trans (Handle.returned_eq_some_iff.mp returned).1
  case h_6 => contradiction

end InCall

/-! ## A child that is left alone -/

/-- The event disturbs the child. -/
def Event.Disturbs : Event ι Signal → Prop
  | .killed _ _ _ => True
  | .dropping => True
  | _ => False

/-- The child was left alone. -/
def Undisturbed (handle : Handle ι Signal) : Prop :=
  ∀ event ∈ handle.log, ¬event.Disturbs

theorem Undisturbed.record (undisturbed : Undisturbed handle) {event : Event ι Signal}
    (quiet : ¬event.Disturbs) : Undisturbed (handle.record event) :=
  List.forall_mem_cons.mpr ⟨quiet, undisturbed⟩

theorem Undisturbed.reply (undisturbed : Undisturbed handle) (reply : Reply) :
    Undisturbed (handle.reply reply) :=
  List.forall_mem_cons.mpr ⟨not_false, undisturbed⟩

theorem Undisturbed.finishKill (undisturbed : Undisturbed handle) (dropping : Bool)
    (result : Result) : Undisturbed (handle.finishKill dropping result) := by
  unfold Handle.finishKill
  split
  · split <;> exact undisturbed
  · exact undisturbed.reply _

theorem Undisturbed.finishWait (undisturbed : Undisturbed handle) (caller : Caller Signal)
    (result : Option Result) : Undisturbed (handle.finishWait caller result) := by
  cases caller with
  | alive => exact undisturbed.reply _
  | wait block all dropping =>
      cases dropping with
      | false => exact undisturbed.reply _
      | true => exact undisturbed
  | kill signal dropping =>
      cases result with
      | some verdict => exact undisturbed.finishKill dropping _
      | none => exact undisturbed

theorem Undisturbed.step [DecidableEq ι] [ToString Signal] {sigkill : Signal}
    (undisturbed : Undisturbed handle) {action : HandleAction ι Signal} {next : Handle ι Signal}
    (step : handleStep pid sigkill handle action = some next) (kept : action ≠ .drop)
    (silent : ∀ signal dropping, handle.pc ≠ .signal signal dropping) : Undisturbed next := by
  unfold handleStep at step
  split at step
  case h_1 call idle =>
    cases step
    have called : Undisturbed (handle.record (.called call)) := undisturbed.record not_false
    unfold Handle.begin
    split
    · exact called.finishWait _ _
    · exact called
  case h_2 => exact absurd rfl kept
  case h_3 caller answer waits =>
    cases step
    have answered (target : Option ι) : Undisturbed (handle.record (.waitpid target answer)) :=
      undisturbed.record not_false
    unfold answerWaitpid
    split
    · split
      · exact answered _
      · exact answered _
    · split
      · exact answered _
      · exact (answered _).finishWait _ _
  case h_4 caller status buffer answer reads =>
    cases step
    have answered : Undisturbed (handle.record (.read answer)) := undisturbed.record not_false
    have keeps (result : Result) :
        Undisturbed { handle.record (.read answer) with result := some result } := answered
    unfold answerRead
    split
    · exact answered
    · exact answered
    · exact (keeps _).finishWait _ _
  case h_5 signal dropping answer signals => exact absurd signals (silent signal dropping)
  case h_6 => contradiction

theorem InCall.silent {call : Call Signal} (inCall : InCall call handle)
    (other : ∀ signal, call ≠ .kill signal) (signal : Signal) (dropping : Bool) :
    handle.pc ≠ .signal signal dropping := by
  intro signals
  cases inCall with
  | waiting here => cases signals.symm.trans here
  | reading status buffer here => cases signals.symm.trans here
  | signalling signal' same here => exact other signal' same
  | returned reply returned fits =>
      cases signals.symm.trans (Handle.returned_eq_some_iff.mp returned).1

/-! ## What is kept -/

@[simp]
theorem Handle.finishKill_result (handle : Handle ι Signal) (dropping : Bool) (result : Result) :
    (handle.finishKill dropping result).result = handle.result := by
  unfold Handle.finishKill
  split
  · split <;> rfl
  · rfl

@[simp]
theorem Handle.finishWait_result (handle : Handle ι Signal) (caller : Caller Signal)
    (result : Option Result) : (handle.finishWait caller result).result = handle.result := by
  cases caller with
  | alive => rfl
  | wait block all dropping => cases dropping <;> rfl
  | kill signal dropping =>
      cases result with
      | some verdict => exact handle.finishKill_result dropping _
      | none => rfl

@[simp]
theorem Handle.begin_result (handle : Handle ι Signal) (caller : Caller Signal) :
    (handle.begin caller).result = handle.result := by
  unfold Handle.begin
  split
  · exact handle.finishWait_result caller _
  · rfl

/-- Where the handle reads the pipe, nothing is kept yet. -/
def ReadsOnce (handle : Handle ι Signal) : Prop :=
  ∀ caller status buffer, handle.pc = .read caller status buffer → handle.result = none

theorem ReadsOnce.elsewhere
    (other : ∀ caller status buffer, handle.pc ≠ .read caller status buffer) : ReadsOnce handle :=
  fun caller status buffer reads => absurd reads (other caller status buffer)

theorem ReadsOnce.finishKill (handle : Handle ι Signal) (dropping : Bool) (result : Result) :
    ReadsOnce (handle.finishKill dropping result) := by
  apply ReadsOnce.elsewhere
  unfold Handle.finishKill
  split
  · split <;> simp
  · simp [Handle.reply]

theorem ReadsOnce.finishWait (handle : Handle ι Signal) (caller : Caller Signal)
    (result : Option Result) : ReadsOnce (handle.finishWait caller result) := by
  cases caller with
  | alive => exact .elsewhere (by simp [Handle.finishWait, Handle.reply])
  | wait block all dropping =>
      cases dropping <;> exact .elsewhere (by simp [Handle.finishWait, Handle.reply])
  | kill signal dropping =>
      cases result with
      | some verdict => exact ReadsOnce.finishKill handle dropping _
      | none => exact .elsewhere (by simp [Handle.finishWait])

theorem ReadsOnce.begin (handle : Handle ι Signal) (caller : Caller Signal) :
    ReadsOnce (handle.begin caller) := by
  unfold Handle.begin
  split
  · exact ReadsOnce.finishWait handle caller _
  · exact .elsewhere (by simp)

section Kept

variable [DecidableEq ι] [ToString Signal] {sigkill : Signal} {action : HandleAction ι Signal}
  {next : Handle ι Signal}

theorem ReadsOnce.step (once : ReadsOnce handle) (phase : Phase pid handle)
    (step : handleStep pid sigkill handle action = some next) : ReadsOnce next := by
  unfold handleStep at step
  split at step
  case h_1 call idle =>
    cases step
    exact ReadsOnce.begin _ _
  case h_2 idle =>
    cases step
    exact ReadsOnce.begin _ _
  case h_3 caller answer waits =>
    cases step
    have unkept := (phase.fresh (.inl ⟨_, waits⟩)).unkept
    have unread (target : Option ι) : ReadsOnce (handle.record (.waitpid target answer)) :=
      fun _ _ _ _ => unkept
    unfold answerWaitpid
    split
    · split
      · exact fun _ _ _ _ => unkept
      · exact unread _
    · split
      · exact unread _
      · exact ReadsOnce.finishWait _ _ _
  case h_4 caller status buffer answer reads =>
    cases step
    have unkept := once caller status buffer reads
    unfold answerRead
    split
    · exact fun _ _ _ _ => unkept
    · exact fun _ _ _ _ => unkept
    · exact ReadsOnce.finishWait _ _ _
  case h_5 signal dropping answer signals =>
    cases step
    exact ReadsOnce.finishKill _ _ _
  case h_6 => contradiction

theorem readsOnce_of_reachable (reachable : (handleSystem pid sigkill).Reachable handle) :
    ReadsOnce handle := by
  apply reachable.invariant
  case base =>
    rintro state rfl
    exact fun _ _ _ _ => rfl
  case preserve =>
    intro state action next before step once
    exact once.step (phase_of_reachable before) step

/-- What is kept is kept for good. -/
theorem kept_of_step (reachable : (handleSystem pid sigkill).Reachable handle)
    (step : handleStep pid sigkill handle action = some next) {verdict : Result}
    (kept : handle.result = some verdict) : next.result = some verdict := by
  unfold handleStep at step
  split at step
  case h_1 call idle =>
    cases step
    rw [Handle.begin_result]
    exact kept
  case h_2 idle =>
    cases step
    rw [Handle.begin_result]
    exact kept
  case h_3 caller answer waits =>
    cases step
    have unkept := ((phase_of_reachable reachable).fresh (.inl ⟨_, waits⟩)).unkept
    rw [unkept] at kept
    contradiction
  case h_4 caller status buffer answer reads =>
    have unkept := readsOnce_of_reachable reachable caller status buffer reads
    rw [unkept] at kept
    contradiction
  case h_5 signal dropping answer signals =>
    cases step
    rw [Handle.finishKill_result]
    exact kept
  case h_6 => contradiction

/-- What is kept is the verdict. -/
theorem concluded_of_reachable (reachable : (handleSystem pid sigkill).Reachable handle)
    {verdict : Result} (kept : handle.result = some verdict) : Concluded pid verdict handle := by
  cases phase_of_reachable reachable with
  | unreported unkept _ _ =>
      rw [unkept] at kept
      contradiction
  | reading caller status buffer atRead _ _ =>
      rw [readsOnce_of_reachable reachable caller status buffer atRead] at kept
      contradiction
  | concluded verdict' concluded _ =>
      cases concluded.kept.symm.trans kept
      exact concluded

/-- The end of the child has been reported to a dropped handle. -/
theorem concluded_of_dropped (reachable : (handleSystem pid sigkill).Reachable handle)
    (dropped : handle.pc = .dropped) : ∃ verdict, Concluded pid verdict handle := by
  have kept := (blocking_of_reachable reachable).kept dropped
  obtain ⟨verdict, kept⟩ := Option.ne_none_iff_exists'.mp kept
  exact ⟨verdict, concluded_of_reachable reachable kept⟩

end Kept

end Schtest.Child
