import Schtest.Child.Verdict

/-!
# One handle of a family

What the parent of a family does with one of its handles is what a handle does
on its own: the kernel gives some of the answers that a handle may get.  What
happens to the other children is not seen.
-/

namespace Schtest.Child

open Schtest.Transition

universe u v

variable {ι : Type u} [DecidableEq ι] {Signal : Type v}

/-- Where the handle of a child is, when the parent is at `pc`. -/
def ParentPc.handle (child : ι) : ParentPc ι Signal → HandlePc Signal
  | .idle => .idle
  | .wait other call _ _ => if other = child then .wait call.caller else .idle
  | .read other call _ status buffer =>
      if other = child then .read call.caller status buffer else .idle
  | .signal other sent _ => if other = child then .signal sent false else .idle

/-- The reply of a call that returns. -/
def Event.reply? : Event ι Signal → Option Reply
  | .replied reply => some reply
  | _ => none

/-- What calls on a child have returned, newest first. -/
def Family.replies (family : Family ι Signal) (child : ι) : List Reply :=
  (family.log.filter fun entry => entry.child = child).map Entry.reply

/-- What the calls of the handle were told by the system. -/
def Handle.replies (handle : Handle ι Signal) : List Reply :=
  handle.log.filterMap Event.reply?

/-- A handle keeps the result and has given the replies of a child. -/
structure Agrees (child : ι) (family : Family ι Signal) (handle : Handle ι Signal) : Prop where
  result : handle.result = family.results child
  replies : handle.replies = family.replies child

/-- It is also where the parent is with this child. -/
structure Views (child : ι) (family : Family ι Signal) (handle : Handle ι Signal) : Prop where
  agrees : Agrees child family handle
  pc : handle.pc = family.parent.handle child

theorem Call.caller_block (call : Call Signal) : call.caller.block = call.block := by
  cases call <;> rfl

section Finish

variable {child other : ι} {family : Family ι Signal} {handle : Handle ι Signal}

/-- Other events than replies change nothing. -/
theorem Agrees.record (agrees : Agrees child family handle) {event : Event ι Signal}
    (silent : event.reply? = none) : Agrees child family (handle.record event) where
  result := agrees.result
  replies := by
    rw [← agrees.replies, Handle.replies, Handle.record, List.filterMap_cons_none silent]
    rfl

/-- The parent and the handle both return. -/
theorem Agrees.reply (agrees : Agrees child family handle) (call : Call Signal) (dead : Bool)
    (reply : Reply) : Views child (family.reply child call dead reply) (handle.reply reply) := by
  constructor
  case agrees =>
    constructor
    case result => exact agrees.result
    case replies =>
      have older := agrees.replies
      simp only [Handle.replies, Family.replies] at older
      simp [Handle.replies, Family.replies, Handle.reply, Family.reply, Event.reply?, older]
  case pc => rfl

/-- The call of another child returns unseen. -/
theorem Agrees.reply_other (agrees : Agrees child family handle) (different : other ≠ child)
    (call : Call Signal) (dead : Bool) (reply : Reply) (idle : handle.pc = .idle) :
    Views child (family.reply other call dead reply) handle := by
  constructor
  case agrees =>
    constructor
    case result => exact agrees.result
    case replies =>
      rw [agrees.replies]
      simp [Family.replies, Family.reply, different]
  case pc => exact idle

/-- `self.wait` returns to the same method in both. -/
theorem Agrees.finish (agrees : Agrees child family handle) (call : Call Signal) (dead : Bool)
    (result : Option Result) :
    Views child (family.finish child call dead result) (handle.finishWait call.caller result) := by
  cases call with
  | alive => exact agrees.reply _ _ _
  | wait block all => exact agrees.reply _ _ _
  | kill signal =>
      cases result with
      | some result => exact agrees.reply _ _ _
      | none =>
          constructor
          · exact ⟨agrees.result, agrees.replies⟩
          · simp [Family.finish, Handle.finishWait, Call.caller, ParentPc.handle]

theorem Agrees.finish_other (agrees : Agrees child family handle) (different : other ≠ child)
    (call : Call Signal) (dead : Bool) (result : Option Result) (idle : handle.pc = .idle) :
    Views child (family.finish other call dead result) handle := by
  cases call with
  | alive => exact agrees.reply_other different _ _ _ idle
  | wait block all => exact agrees.reply_other different _ _ _ idle
  | kill signal =>
      cases result with
      | some result => exact agrees.reply_other different _ _ _ idle
      | none =>
          constructor
          · exact ⟨agrees.result, agrees.replies⟩
          · simp [Family.finish, ParentPc.handle, different, idle]

/-- A result is kept in both. -/
theorem Agrees.cache (agrees : Agrees child family handle) (result : Result) :
    Agrees child (family.cache child result) { handle with result := some result } where
  result := by simp
  replies := agrees.replies

theorem Agrees.cache_other (agrees : Agrees child family handle) (different : other ≠ child)
    (result : Result) : Agrees child (family.cache other result) handle where
  result := by
    rw [agrees.result, Family.cache_results, Function.update_of_ne different.symm]
  replies := agrees.replies

end Finish

/-! ## Each step of the family -/

section Steps

variable [Fintype ι] [ToString Signal] {handled : ι → Bool} {sigkill : Signal}
  {child : ι} {family next : Family ι Signal} {handle : Handle ι Signal}

/-- The handle of a child does nothing, or one step of its own. -/
def Follows (sigkill : Signal) (child : ι) (next : Family ι Signal) (handle : Handle ι Signal) :
    Prop :=
  Views child next handle ∨
    ∃ action handleNext, handleStep child sigkill handle action = some handleNext ∧
      Views child next handleNext

omit [Fintype ι] in
theorem Follows.of_step {action : HandleAction ι Signal} {handleNext : Handle ι Signal}
    (step : handleStep child sigkill handle action = some handleNext)
    (views : Views child next handleNext) : Follows sigkill child next handle :=
  .inr ⟨action, handleNext, step, views⟩

omit [Fintype ι] [ToString Signal] in
/-- Where the parent is with another child, the handle is idle. -/
theorem Views.idle_of_other (views : Views child family handle) {pc : ParentPc ι Signal}
    (parent : family.parent = pc) (elsewhere : pc.handle child = .idle) : handle.pc = .idle := by
  rw [views.pc, parent, elsewhere]

omit [Fintype ι] in
theorem Views.call (views : Views child family handle) (idle : family.parent = .idle)
    (call : Call Signal) (dead : Bool) :
    (∀ result, family.results child = some result →
      Follows sigkill child (family.finish child call dead (some result)) handle) ∧
    (family.results child = none →
      Follows sigkill child { family with parent := .wait child call dead 0 } handle) := by
  have atIdle : handle.pc = .idle := views.idle_of_other idle rfl
  have recorded : Agrees child family (handle.record (.called call)) := views.agrees.record rfl
  have step : handleStep child sigkill handle (.call call) =
      some ((handle.record (.called call)).begin call.caller) := by
    simp only [handleStep, atIdle]
  constructor
  · intro result cached
    apply Follows.of_step step
    rw [Handle.begin_of_kept (recorded.result.trans cached)]
    exact recorded.finish call dead (some result)
  · intro uncached
    apply Follows.of_step step
    rw [Handle.begin_of_unkept (recorded.result.trans uncached)]
    constructor
    · exact ⟨recorded.result, recorded.replies⟩
    · simp [ParentPc.handle]

omit [Fintype ι] in
/-- The kernel gives the handle an answer. -/
theorem Views.waitpid_step (views : Views child family handle) {call : Call Signal} {dead : Bool}
    {polls : Nat} (waits : family.parent = .wait child call dead polls)
    (answer : WaitAnswer ι Signal) :
    ∃ target, Agrees child family (handle.record (.waitpid target answer)) ∧
      handleStep child sigkill handle (.waitpid answer) =
        some (answerWaitpid child (handle.record (.waitpid target answer)) call.caller answer) ∧
      (handle.record (.waitpid target answer)).pc = .wait call.caller := by
  have atWait : handle.pc = .wait call.caller := by
    rw [views.pc, waits]
    simp [ParentPc.handle]
  refine ⟨if call.caller.all then none else some child, views.agrees.record rfl, ?_, atWait⟩
  simp only [handleStep, atWait]

omit [Fintype ι] in
theorem Views.read_step (views : Views child family handle) {call : Call Signal} {dead : Bool}
    {status : Status Signal} {buffer : List UInt8}
    (reads : family.parent = .read child call dead status buffer) (answer : ReadAnswer) :
    Agrees child family (handle.record (.read answer)) ∧
      handleStep child sigkill handle (.read answer) =
        some (answerRead (handle.record (.read answer)) call.caller status buffer answer) := by
  have atRead : handle.pc = .read call.caller status buffer := by
    rw [views.pc, reads]
    simp [ParentPc.handle]
  constructor
  · exact views.agrees.record rfl
  · simp only [handleStep, atRead]

section Own

omit [Fintype ι]

variable {call : Call Signal} {dead : Bool} {polls : Nat}

/-- The kernel reports the end of the child. -/
theorem Views.reapsOwn (views : Views child family handle)
    (waits : family.parent = .wait child call dead polls) (status : Status Signal)
    (procs : ι → Proc Signal) :
    Follows sigkill child
      { family with procs := procs, parent := .read child call dead status [] } handle := by
  obtain ⟨target, agrees, step, -⟩ := views.waitpid_step waits (.status child status)
  apply Follows.of_step step
  rw [answerWaitpid, if_pos rfl]
  constructor
  case agrees => exact ⟨agrees.result, agrees.replies⟩
  case pc => simp [ParentPc.handle]

omit [ToString Signal] in
/-- Both call `waitpid` once more. -/
theorem Agrees.waitsAgain (agrees : Agrees child family handle)
    (atWait : handle.pc = .wait call.caller) (procs : ι → Proc Signal) (polls' : Nat) :
    Views child { family with procs := procs, parent := .wait child call dead polls' } handle := by
  constructor
  case agrees => exact ⟨agrees.result, agrees.replies⟩
  case pc =>
    rw [atWait]
    simp [ParentPc.handle]

/-- It reports the end of another child. -/
theorem Views.reapsOther (views : Views child family handle)
    (waits : family.parent = .wait child call dead polls) {pick : ι} (different : pick ≠ child)
    (status : Status Signal) (procs : ι → Proc Signal) (polls' : Nat) :
    Follows sigkill child
      { family with procs := procs, parent := .wait child call dead polls' } handle := by
  obtain ⟨target, agrees, step, atWait⟩ := views.waitpid_step waits (.status pick status)
  apply Follows.of_step step
  rw [answerWaitpid, if_neg different]
  exact agrees.waitsAgain atWait procs polls'

/-- There is nothing to report, and the parent does not block. -/
theorem Views.findsNothing (views : Views child family handle)
    (waits : family.parent = .wait child call dead polls) (noBlock : call.block = false) :
    Follows sigkill child (family.finish child call dead none) handle := by
  obtain ⟨target, agrees, step, -⟩ := views.waitpid_step waits .stillAlive
  apply Follows.of_step step
  rw [answerWaitpid_stillAlive, Call.caller_block, noBlock]
  exact agrees.finish call dead none

/-- There is nobody to wait for. -/
theorem Views.findsNobody (views : Views child family handle)
    (waits : family.parent = .wait child call dead polls) (block : call.block = true)
    (polls' : Nat) :
    Follows sigkill child { family with parent := .wait child call dead polls' } handle := by
  obtain ⟨target, agrees, step, atWait⟩ := views.waitpid_step waits .other
  apply Follows.of_step step
  rw [answerWaitpid_other, Call.caller_block, if_pos block]
  exact agrees.waitsAgain atWait family.procs polls'

variable {status : Status Signal} {buffer : List UInt8}

theorem Views.reads (views : Views child family handle)
    (reads : family.parent = .read child call dead status buffer) {chunk : List UInt8}
    (nonempty : 0 < chunk.length) (procs : ι → Proc Signal) :
    Follows sigkill child
      { family with procs := procs, parent := .read child call dead status (buffer ++ chunk) }
      handle := by
  obtain ⟨byte, rest, rfl⟩ := List.exists_cons_of_length_pos nonempty
  obtain ⟨agrees, step⟩ := views.read_step reads (.bytes (byte :: rest))
  apply Follows.of_step step
  constructor
  case agrees => exact ⟨agrees.result, agrees.replies⟩
  case pc => simp [answerRead, ParentPc.handle]

theorem Views.concludes (views : Views child family handle)
    (reads : family.parent = .read child call dead status buffer) :
    Follows sigkill child
      ((family.cache child (concludeStatus status buffer)).finish child call dead
        (some (concludeStatus status buffer))) handle := by
  obtain ⟨agrees, step⟩ := views.read_step reads (.bytes [])
  apply Follows.of_step step
  rw [answerRead_nil]
  exact (agrees.cache _).finish call dead _

/-- The signal is sent, or the kernel knows no such process. -/
theorem Views.signals (views : Views child family handle) {sent : Signal}
    (signals : family.parent = .signal child sent dead) (result : Result)
    (stray : List (Sent ι)) :
    Follows sigkill child
      (({ family with sent := stray }).reply child (.kill sent) dead (.kill (killResult result)))
      handle := by
  have atSignal : handle.pc = .signal sent false := by
    rw [views.pc, signals]
    simp [ParentPc.handle]
  have step : handleStep child sigkill handle (.kill result) =
      some ((handle.record (.killed child sent result)).reply (.kill (killResult result))) := by
    simp [handleStep, atSignal, Handle.finishKill]
  have recorded : Agrees child family (handle.record (.killed child sent result)) :=
    views.agrees.record rfl
  have logged : Agrees child { family with sent := stray }
      (handle.record (.killed child sent result)) := ⟨recorded.result, recorded.replies⟩
  exact Follows.of_step step (logged.reply _ _ _)

end Own

/-- Every step of the family is one of the handle, or is not seen by it. -/
theorem follows_of_step (sigkill : Signal) (views : Views child family handle)
    {action : Action ι Signal} (step : family.step handled action = some next) :
    Follows sigkill child next handle := by
  have unseen (sameResult : next.results child = family.results child)
      (sameLog : next.log = family.log)
      (samePc : next.parent.handle child = family.parent.handle child) :
      Follows sigkill child next handle := by
    refine .inl ⟨⟨views.agrees.result.trans sameResult.symm, ?_⟩, views.pc.trans samePc.symm⟩
    rw [views.agrees.replies, Family.replies, Family.replies, sameLog]
  cases effect_of_step step with
  | returned _ _ => exact unseen rfl rfl rfl
  | ended _ => exact unseen rfl rfl rfl
  | interrupted => exact unseen rfl rfl rfl
  | @cached other call result idle _ cached =>
      by_cases own : other = child
      · subst own
        exact (views.call idle call _).1 result cached
      · have atIdle := views.idle_of_other idle rfl
        exact .inl (views.agrees.finish_other own call _ _ atIdle)
  | @begins other call idle _ uncached =>
      by_cases own : other = child
      · subst own
        exact (views.call idle call _).2 uncached
      · exact unseen rfl rfl (by simp [ParentPc.handle, own, idle])
  | @reapsOwn other call dead polls status pick waits zombie =>
      by_cases own : other = child
      · subst own
        exact views.reapsOwn waits status _
      · exact unseen rfl rfl (by simp [ParentPc.handle, own, waits])
  | @reapsOther other call dead polls pick waits _ different zombie =>
      by_cases own : other = child
      · subst own
        obtain ⟨status, -⟩ := ProcState.isZombie_iff.mp zombie
        exact views.reapsOther waits different status _ _
      · exact unseen rfl rfl (by simp [ParentPc.handle, own, waits])
  | @findsNothing other call dead polls pick waits _ noBlock =>
      by_cases own : other = child
      · subst own
        exact views.findsNothing waits noBlock
      · have atIdle := views.idle_of_other waits (by simp [ParentPc.handle, own])
        exact .inl (views.agrees.finish_other own call dead none atIdle)
  | @findsNobody other call dead polls pick waits block _ =>
      by_cases own : other = child
      · subst own
        exact views.findsNobody waits block _
      · exact unseen rfl rfl (by simp [ParentPc.handle, own, waits])
  | @reads other call dead status buffer n reads positive enough =>
      by_cases own : other = child
      · subst own
        refine views.reads reads ?_ _
        rw [List.length_take]
        omega
      · exact unseen rfl rfl (by simp [ParentPc.handle, own, reads])
  | @concludes other call dead status buffer n reads _ =>
      by_cases own : other = child
      · subst own
        exact views.concludes reads
      · have atIdle := views.idle_of_other reads (by simp [ParentPc.handle, own])
        exact .inl ((views.agrees.cache_other own _).finish_other own call dead _ atIdle)
  | @signals other sent dead result signals =>
      by_cases own : other = child
      · subst own
        -- the effect does not say what the kernel has answered
        simp only [Family.step, signals] at step
        cases reaped : (family.procs other).state.isReaped with
        | false =>
            simp only [reaped] at step
            cases step
            exact views.signals signals (.ok ()) _
        | true =>
            simp only [reaped] at step
            cases step
            exact views.signals signals (.error "ESRCH") _
      · have atIdle := views.idle_of_other signals (by simp [ParentPc.handle, own])
        have logged : Agrees child
            { family with sent := ⟨other, (family.procs other).state.isReaped⟩ :: family.sent }
            handle := ⟨views.agrees.result, views.agrees.replies⟩
        exact .inl (logged.reply_other own _ dead _ atIdle)

end Steps

/-- A family is, for each child, a handle with the answers of the kernel. -/
theorem family_refines_handle [Fintype ι] [ToString Signal] (handled : ι → Bool) (child : ι)
    (sigkill : Signal) :
    Refinement (familySystem ι Signal handled) (handleSystem child sigkill) (Views child) where
  init := by
    rintro family rfl
    exact ⟨⟨none, .idle, []⟩, rfl, ⟨⟨rfl, rfl⟩, rfl⟩⟩
  step := by
    intro family action next handle _ step views
    exact follows_of_step sigkill views step

end Schtest.Child
