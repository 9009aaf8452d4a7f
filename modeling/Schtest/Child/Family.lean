import Schtest.Child.Message
import Schtest.Transition.Core
import Mathlib.Data.Fintype.Card

/-!
# A process and its children

The operating system knows each child as running, as a zombie that keeps its
exit status, or as reaped.  The parent has `Child` handles for some of its
children and calls `alive`, `wait` and `kill` on them in any order, one call at
a time; every `waitpid`, every `read` from a pipe and every signal is one step.
The children end in any order.

A `waitpid` that reaps a child reports its status; `Child.Spawn` treats the
signals for which `nix` has none to report.  The write end of a pipe is closed
when its child ends: no process that the child has left behind keeps a copy.
-/

namespace Schtest.Child

open Schtest.Transition

universe u v

/-! ## Processes -/

/-- An exit status. -/
inductive Status (Signal : Type v)
  | exited (code : Int)
  | signaled (signal : Signal)
  deriving DecidableEq, Repr

/-- What the operating system knows of a child. -/
inductive ProcState (Signal : Type v)
  | running
  | zombie (status : Status Signal)
  | reaped
  deriving DecidableEq, Repr

namespace ProcState

variable {Signal : Type v}

/-- The child has not ended. -/
def isRunning : ProcState Signal → Bool
  | .running => true
  | _ => false

/-- The child has ended and keeps its exit status. -/
def isZombie : ProcState Signal → Bool
  | .zombie _ => true
  | _ => false

/-- The exit status has been taken. -/
def isReaped : ProcState Signal → Bool
  | .reaped => true
  | _ => false

theorem isRunning_iff {state : ProcState Signal} : state.isRunning = true ↔ state = .running := by
  cases state <;> simp [isRunning]

theorem isZombie_iff {state : ProcState Signal} :
    state.isZombie = true ↔ ∃ status, state = .zombie status := by
  cases state <;> simp [isZombie]

theorem isReaped_iff {state : ProcState Signal} : state.isReaped = true ↔ state = .reaped := by
  cases state <;> simp [isReaped]

end ProcState

/-- A child process: its state, what is in its pipe, and, once its function has
returned, what it returned and the bytes it has written. -/
structure Proc (Signal : Type v) where
  state : ProcState Signal
  pipe : List UInt8
  returned : Option (Result × List UInt8)

/-- What `waitpid` reports. -/
inductive WaitResult (ι : Type u) (Signal : Type v)
  | status (pid : ι) (status : Status Signal)
  | stillAlive
  /-- `ECHILD`. -/
  | noChild

variable {ι : Type u} [DecidableEq ι] {Signal : Type v}

/-- The zombie gives up its status; its pipe stays. -/
def reap (procs : ι → Proc Signal) (pid : ι) : ι → Proc Signal :=
  Function.update procs pid { procs pid with state := .reaped }

/-- `waitpid` for one child, or for any child, where the kernel picks a zombie.
It is disabled while it blocks. -/
def waitpid [Fintype ι] (procs : ι → Proc Signal) (target : Option ι) (block : Bool) (pick : ι) :
    Option (WaitResult ι Signal × (ι → Proc Signal)) :=
  match target with
  | some pid =>
      match (procs pid).state with
      | .zombie status => some (.status pid status, reap procs pid)
      | .running => if block then none else some (.stillAlive, procs)
      | .reaped => some (.noChild, procs)
  | none =>
      match (procs pick).state with
      | .zombie status => some (.status pick status, reap procs pick)
      | _ =>
          if ∃ pid, (procs pid).state.isZombie = true then none
          else if ∀ pid, (procs pid).state.isReaped = true then some (.noChild, procs)
          else if block then none
          else some (.stillAlive, procs)

/-! ## Calls -/

/-- A call on a handle. -/
inductive Call (Signal : Type v)
  | alive
  | wait (block all : Bool)
  | kill (signal : Signal)
  deriving DecidableEq, Repr

namespace Call

/-- The argument `block` of the `self.wait` that the call is made of. -/
def block : Call Signal → Bool
  | .wait block _ => block
  | _ => false

/-- The argument `all` of the `self.wait` that the call is made of. -/
def all : Call Signal → Bool
  | .wait _ all => all
  | _ => false

end Call

/-- What a call returns. -/
inductive Reply
  | alive (alive : Bool)
  | wait (result : Option Result)
  | kill (result : Result)
  deriving DecidableEq

/-- What the call returns where `self.wait` is its last step. -/
def Call.reply (call : Call Signal) (result : Option Result) : Reply :=
  match call with
  | .alive => .alive result.isNone
  | .wait _ _ => .wait result
  | .kill _ => .kill (.ok ())

theorem Call.reply_eq_wait {call : Call Signal} {result result' : Option Result}
    (reply : call.reply result = .wait result') : result' = result := by
  cases call with
  | alive => contradiction
  | wait block all =>
      cases reply
      rfl
  | kill signal => contradiction

/-- Where the parent is.  A call knows whether the child had terminated when it
began, and how often it has called `waitpid`. -/
inductive ParentPc (ι : Type u) (Signal : Type v)
  | idle
  /-- About to call `waitpid`. -/
  | wait (child : ι) (call : Call Signal) (dead : Bool) (polls : Nat)
  /-- The child is reaped: reading its pipe. -/
  | read (child : ι) (call : Call Signal) (dead : Bool) (status : Status Signal)
      (buffer : List UInt8)
  /-- In `kill`, the child is alive: about to send the signal. -/
  | signal (child : ι) (signal : Signal) (dead : Bool)

/-- A call that has returned. -/
structure Entry (ι : Type u) (Signal : Type v) where
  child : ι
  call : Call Signal
  dead : Bool
  reply : Reply
  deriving DecidableEq

/-- A signal that was sent, and whether its pid was reaped already. -/
structure Sent (ι : Type u) where
  child : ι
  stray : Bool
  deriving DecidableEq

/-- The parent, its children, and the results cached in the handles. -/
structure Family (ι : Type u) (Signal : Type v) where
  procs : ι → Proc Signal
  results : ι → Option Result
  parent : ParentPc ι Signal
  sent : List (Sent ι)
  log : List (Entry ι Signal)

/-- The steps of the parent and of its children. -/
inductive Action (ι : Type u) (Signal : Type v)
  /-- The function of a child returns; the child writes these bytes and exits. -/
  | returned (child : ι) (result : Result) (written : List UInt8)
  /-- A child ends in another way, with these bytes in its pipe. -/
  | ended (child : ι) (status : Status Signal) (written : List UInt8)
  /-- The parent calls a handle. -/
  | call (child : ι) (call : Call Signal)
  /-- The parent calls `waitpid`; for any child, the kernel picks this one. -/
  | waitpid (pick : ι)
  /-- The parent reads this many bytes. -/
  | read (n : Nat)
  /-- `read` fails with `EINTR`. -/
  | interrupted
  /-- The parent sends the signal. -/
  | signal

/-- The result concluded from status and pipe contents. -/
def concludeStatus [ToString Signal] (status : Status Signal) (buffer : List UInt8) : Result :=
  match status with
  | .exited code => conclude (some code) (none : Option Signal) buffer
  | .signaled signal => conclude none (some signal) buffer

namespace Family

/-- The call returns. -/
def reply (family : Family ι Signal) (child : ι) (call : Call Signal) (dead : Bool)
    (reply : Reply) : Family ι Signal :=
  { family with parent := .idle, log := ⟨child, call, dead, reply⟩ :: family.log }

/-- `self.result = Some(result)`. -/
def cache (family : Family ι Signal) (child : ι) (result : Result) : Family ι Signal :=
  { family with results := Function.update family.results child (some result) }

/-- `self.wait` has returned `result` to the call it is part of. -/
def finish (family : Family ι Signal) (child : ι) (call : Call Signal) (dead : Bool)
    (result : Option Result) : Family ι Signal :=
  match call with
  | .kill signal =>
      if result.isSome then family.reply child call dead (call.reply result)
      else { family with parent := .signal child signal dead }
  | _ => family.reply child call dead (call.reply result)

@[simp]
theorem cache_procs (family : Family ι Signal) (child : ι) (result : Result) :
    (family.cache child result).procs = family.procs :=
  rfl

@[simp]
theorem cache_results (family : Family ι Signal) (child : ι) (result : Result) :
    (family.cache child result).results = Function.update family.results child (some result) :=
  rfl

@[simp]
theorem cache_sent (family : Family ι Signal) (child : ι) (result : Result) :
    (family.cache child result).sent = family.sent :=
  rfl

@[simp]
theorem cache_log (family : Family ι Signal) (child : ι) (result : Result) :
    (family.cache child result).log = family.log :=
  rfl

section Finish

omit [DecidableEq ι]

variable (family : Family ι Signal) (child : ι) (call : Call Signal) (dead : Bool)
  (result : Option Result)

@[simp]
theorem finish_procs : (family.finish child call dead result).procs = family.procs := by
  cases call <;> simp only [finish, reply]
  split <;> rfl

@[simp]
theorem finish_results : (family.finish child call dead result).results = family.results := by
  cases call <;> simp only [finish, reply]
  split <;> rfl

@[simp]
theorem finish_sent : (family.finish child call dead result).sent = family.sent := by
  cases call <;> simp only [finish, reply]
  split <;> rfl

/-- The parent has returned, or is about to send a signal to a child without a
result. -/
theorem finish_parent :
    (family.finish child call dead result).parent = .idle ∨
      result = none ∧ ∃ signal, (family.finish child call dead result).parent =
        .signal child signal dead := by
  cases call with
  | alive => exact Or.inl rfl
  | wait block all => exact Or.inl rfl
  | kill signal =>
      cases result with
      | some result => exact Or.inl rfl
      | none => exact Or.inr ⟨rfl, signal, rfl⟩

variable {family child call dead result}

theorem finish_parent_ne_read {other : ι} {call' : Call Signal} {dead' : Bool}
    {status : Status Signal} {buffer : List UInt8} :
    (family.finish child call dead result).parent ≠ .read other call' dead' status buffer := by
  rcases family.finish_parent child call dead result with idle | ⟨_, signal, signaling⟩
  · simp [idle]
  · simp [signaling]

theorem finish_parent_ne_wait {other : ι} {call' : Call Signal} {dead' : Bool} {polls : Nat} :
    (family.finish child call dead result).parent ≠ .wait other call' dead' polls := by
  rcases family.finish_parent child call dead result with idle | ⟨_, signal, signaling⟩
  · simp [idle]
  · simp [signaling]

theorem eq_of_finish_parent_signal {other : ι} {signal : Signal} {dead' : Bool}
    (signaling : (family.finish child call dead result).parent = .signal other signal dead') :
    child = other ∧ result = none := by
  rcases family.finish_parent child call dead result with idle | ⟨unknown, signal', signaling'⟩
  · rw [idle] at signaling
    contradiction
  · rw [signaling'] at signaling
    cases signaling
    exact ⟨rfl, unknown⟩

/-- A call that returned from `finish` has this reply. -/
theorem mem_log_finish {entry : Entry ι Signal}
    (member : entry ∈ (family.finish child call dead result).log) :
    entry ∈ family.log ∨ entry = ⟨child, call, dead, call.reply result⟩ := by
  cases call with
  | alive => exact (List.mem_cons.mp member).symm
  | wait block all => exact (List.mem_cons.mp member).symm
  | kill signal =>
      cases result with
      | some result => exact (List.mem_cons.mp member).symm
      | none => exact Or.inl member

variable (family) in
theorem log_length_finish :
    family.log.length ≤ (family.finish child call dead result).log.length := by
  cases call with
  | alive => exact Nat.le_succ _
  | wait block all => exact Nat.le_succ _
  | kill signal =>
      cases result with
      | some result => exact Nat.le_succ _
      | none => exact le_rfl

end Finish

/-- A child terminates. -/
def terminate (family : Family ι Signal) (child : ι) (proc : Proc Signal) :
    Option (Family ι Signal) :=
  match (family.procs child).state with
  | .running => some { family with procs := Function.update family.procs child proc }
  | _ => none

variable [Fintype ι] [ToString Signal]

/-- One step of the parent or of a child.  The parent has handles for the
children in `handled`. -/
def step (handled : ι → Bool) (family : Family ι Signal) : Action ι Signal →
    Option (Family ι Signal)
  | .returned child result written =>
      if written <+: encode result then
        family.terminate child ⟨.zombie (.exited 0), written, some (result, written)⟩
      else none
  | .ended child status written => family.terminate child ⟨.zombie status, written, none⟩
  | .call child call =>
      match family.parent with
      | .idle =>
          if handled child then
            let dead := !(family.procs child).state.isRunning
            match family.results child with
            | some result => some (family.finish child call dead (some result))
            | none => some { family with parent := .wait child call dead 0 }
          else none
      | _ => none
  | .waitpid pick =>
      match family.parent with
      | .wait child call dead polls =>
          match waitpid family.procs (if call.all then none else some child) call.block pick with
          | some (.status pid status, procs) =>
              some { family with
                procs := procs
                parent :=
                  if pid = child then .read child call dead status []
                  else .wait child call dead (polls + 1) }
          | some (_, procs) =>
              if call.block then
                some { family with procs := procs, parent := .wait child call dead (polls + 1) }
              else some ({ family with procs := procs }.finish child call dead none)
          | none => none
      | _ => none
  | .read n =>
      match family.parent with
      | .read child call dead status buffer =>
          let proc := family.procs child
          if proc.pipe = [] then -- end of file: nobody else has the write end
            let result := concludeStatus status buffer
            some ((family.cache child result).finish child call dead (some result))
          else if 1 ≤ n ∧ n ≤ 1024 ∧ n ≤ proc.pipe.length then
            some { family with
              procs := Function.update family.procs child { proc with pipe := proc.pipe.drop n }
              parent := .read child call dead status (buffer ++ proc.pipe.take n) }
          else none
      | _ => none
  | .interrupted =>
      match family.parent with
      | .read _ _ _ _ _ => some family
      | _ => none
  | .signal =>
      match family.parent with
      | .signal child signal dead =>
          let stray := (family.procs child).state.isReaped
          let result : Result := if stray then .error "Failed to kill child process" else .ok ()
          some ({ family with sent := ⟨child, stray⟩ :: family.sent }.reply child (.kill signal)
            dead (.kill result))
      | _ => none

/-- All children are running and no call has been made. -/
def initial : Family ι Signal where
  procs _ := ⟨.running, [], none⟩
  results _ := none
  parent := .idle
  sent := []
  log := []

end Family

/-- All runs of the parent and its children. -/
def familySystem (ι : Type u) (Signal : Type v) [DecidableEq ι] [Fintype ι] [ToString Signal]
    (handled : ι → Bool) : System (Family ι Signal) (Action ι Signal) where
  init family := family = .initial
  step := Family.step handled

/-! ## What one step can do -/

variable [Fintype ι] [ToString Signal]

/-- The effects of a step on the family. -/
inductive Effect (handled : ι → Bool) (family : Family ι Signal) :
    Action ι Signal → Family ι Signal → Prop
  | returned {child result written} : (family.procs child).state = .running →
      written <+: encode result →
      Effect handled family (.returned child result written)
        { family with
          procs := Function.update family.procs child
            (⟨.zombie (.exited 0), written, some (result, written)⟩ : Proc Signal) }
  | ended {child status written} : (family.procs child).state = .running →
      Effect handled family (.ended child status written)
        { family with
          procs := Function.update family.procs child
            (⟨.zombie status, written, none⟩ : Proc Signal) }
  | cached {child call result} : family.parent = .idle → handled child = true →
      family.results child = some result →
      Effect handled family (.call child call)
        (family.finish child call (!(family.procs child).state.isRunning) (some result))
  | begins {child call} : family.parent = .idle → handled child = true →
      family.results child = none →
      Effect handled family (.call child call)
        { family with parent := .wait child call (!(family.procs child).state.isRunning) 0 }
  | reapsOwn {child call dead polls status pick} : family.parent = .wait child call dead polls →
      (family.procs child).state = .zombie status →
      Effect handled family (.waitpid pick)
        { family with procs := reap family.procs child, parent := .read child call dead status [] }
  | reapsOther {child call dead polls pick} : family.parent = .wait child call dead polls →
      call.all = true → pick ≠ child → (family.procs pick).state.isZombie = true →
      Effect handled family (.waitpid pick)
        { family with
          procs := reap family.procs pick, parent := .wait child call dead (polls + 1) }
  | findsNothing {child call dead polls pick} : family.parent = .wait child call dead polls →
      (family.procs child).state.isZombie = false → call.block = false →
      Effect handled family (.waitpid pick) (family.finish child call dead none)
  | findsNobody {child call dead polls pick} : family.parent = .wait child call dead polls →
      call.block = true → (family.procs child).state = .reaped →
      Effect handled family (.waitpid pick)
        { family with parent := .wait child call dead (polls + 1) }
  | reads {child call dead status buffer n} :
      family.parent = .read child call dead status buffer →
      1 ≤ n → n ≤ (family.procs child).pipe.length →
      Effect handled family (.read n)
        { family with
          procs := Function.update family.procs child
            { family.procs child with pipe := (family.procs child).pipe.drop n }
          parent := .read child call dead status (buffer ++ (family.procs child).pipe.take n) }
  | concludes {child call dead status buffer n} :
      family.parent = .read child call dead status buffer → (family.procs child).pipe = [] →
      Effect handled family (.read n)
        ((family.cache child (concludeStatus status buffer)).finish child call dead
          (some (concludeStatus status buffer)))
  | interrupted : Effect handled family .interrupted family
  | signals {child signal dead result} : family.parent = .signal child signal dead →
      Effect handled family .signal
        ({ family with sent := ⟨child, (family.procs child).state.isReaped⟩ :: family.sent }.reply
          child (.kill signal) dead (.kill result))

omit [ToString Signal] in
/-- What a `waitpid` of the parent has found. -/
theorem waitpid_cases {procs procsNext : ι → Proc Signal} {child pick : ι} {call : Call Signal}
    {found : WaitResult ι Signal}
    (wait : waitpid procs (if call.all then none else some child) call.block pick =
      some (found, procsNext)) :
    (∃ status, found = .status child status ∧ (procs child).state = .zombie status ∧
        procsNext = reap procs child) ∨
      (∃ status, found = .status pick status ∧ call.all = true ∧ pick ≠ child ∧
        (procs pick).state = .zombie status ∧ procsNext = reap procs pick) ∨
      (found = .stillAlive ∧ (procs child).state.isZombie = false ∧ call.block = false ∧
        procsNext = procs) ∨
      (found = .noChild ∧ (procs child).state = .reaped ∧ procsNext = procs) := by
  unfold waitpid at wait
  by_cases all : call.all = true
  · simp only [all, if_true] at wait
    split at wait
    · rename_i status zombie
      cases wait
      by_cases own : pick = child
      · subst own
        exact Or.inl ⟨status, rfl, zombie, rfl⟩
      · exact Or.inr (Or.inl ⟨status, rfl, all, own, zombie, rfl⟩)
    · split at wait
      · contradiction
      · rename_i noZombie
        split at wait
        · rename_i reaped
          cases wait
          exact Or.inr (Or.inr (Or.inr ⟨rfl, ProcState.isReaped_iff.mp (reaped child), rfl⟩))
        · split at wait
          · contradiction
          · rename_i block
            cases wait
            refine Or.inr (Or.inr (Or.inl ⟨rfl, ?_, by simpa using block, rfl⟩))
            exact Bool.eq_false_iff.mpr fun zombie => noZombie ⟨child, zombie⟩
  · simp only [all, if_false, Bool.false_eq_true] at wait
    split at wait
    · rename_i status zombie
      cases wait
      exact Or.inl ⟨status, rfl, zombie, rfl⟩
    · rename_i running
      split at wait
      · contradiction
      · rename_i block
        cases wait
        refine Or.inr (Or.inr (Or.inl ⟨rfl, ?_, by simpa using block, rfl⟩))
        simp [running, ProcState.isZombie]
    · rename_i reaped
      cases wait
      exact Or.inr (Or.inr (Or.inr ⟨rfl, reaped, rfl⟩))

theorem effect_of_step {handled : ι → Bool} {family next : Family ι Signal}
    {action : Action ι Signal} (step : family.step handled action = some next) :
    Effect handled family action next := by
  cases action with
  | returned child result written =>
      simp only [Family.step, Family.terminate] at step
      split at step
      · rename_i written
        split at step
        · rename_i running
          cases step
          exact .returned running written
        · contradiction
      · contradiction
  | ended child status written =>
      simp only [Family.step, Family.terminate] at step
      split at step
      · rename_i running
        cases step
        exact .ended running
      · contradiction
  | call child call =>
      simp only [Family.step] at step
      split at step
      · rename_i idle
        split at step
        · rename_i handle
          split at step
          · rename_i result cached
            cases step
            exact .cached idle handle cached
          · rename_i uncached
            cases step
            exact .begins idle handle uncached
        · contradiction
      · contradiction
  | waitpid pick =>
      simp only [Family.step] at step
      split at step
      · rename_i child call dead polls waiting
        split at step
        · rename_i pid status procs found
          cases step
          rcases waitpid_cases found with ⟨status', same, zombie, procsNext⟩ |
            ⟨status', same, all, other, zombie, procsNext⟩ | ⟨same, _⟩ | ⟨same, _⟩
          · cases same
            rw [procsNext, if_pos rfl]
            exact .reapsOwn waiting zombie
          · cases same
            rw [procsNext, if_neg other]
            exact .reapsOther waiting all other (ProcState.isZombie_iff.mpr ⟨_, zombie⟩)
          · contradiction
          · contradiction
        · rename_i noStatus found
          rcases waitpid_cases found with ⟨status', same, _⟩ | ⟨status', same, _⟩ |
            ⟨same, noZombie, noBlock, procsNext⟩ | ⟨same, reaped, procsNext⟩
          · exact absurd same (noStatus _ _)
          · exact absurd same (noStatus _ _)
          · subst procsNext
            rw [noBlock, if_neg (by simp)] at step
            cases step
            exact .findsNothing waiting noZombie noBlock
          · subst procsNext
            split at step
            · rename_i block
              cases step
              exact .findsNobody waiting block reaped
            · rename_i noBlock
              cases step
              exact .findsNothing waiting (by simp [reaped, ProcState.isZombie])
                (by simpa using noBlock)
        · contradiction
      · contradiction
  | read n =>
      simp only [Family.step] at step
      split at step
      · rename_i child call dead status buffer reading
        split at step
        · rename_i endOfFile
          cases step
          exact .concludes reading endOfFile
        · split at step
          · rename_i bounds
            cases step
            exact .reads reading bounds.1 bounds.2.2
          · contradiction
      · contradiction
  | interrupted =>
      simp only [Family.step] at step
      split at step
      · cases step
        exact .interrupted
      · contradiction
  | signal =>
      simp only [Family.step] at step
      split at step
      · rename_i child signal dead signaling
        cases step
        exact .signals signaling
      · contradiction

omit [Fintype ι] in
/-- A call that returns in this step has the result that is now cached, or it
was told that there is nothing to wait for, or it was a `kill`. -/
theorem entry_of_effect {handled : ι → Bool} {family next : Family ι Signal}
    {action : Action ι Signal} (effect : Effect handled family action next) {entry : Entry ι Signal}
    (member : entry ∈ next.log) :
    entry ∈ family.log ∨
      (∃ result, next.results entry.child = some result ∧
        entry.reply = entry.call.reply (some result)) ∨
      (∃ polls, family.parent = .wait entry.child entry.call entry.dead polls ∧
        (family.procs entry.child).state.isZombie = false ∧ entry.call.block = false ∧
        entry.reply = entry.call.reply none) ∨
      ∃ signal result, entry.call = .kill signal ∧ entry.reply = .kill result := by
  cases effect with
  | cached _ _ cached =>
      rcases Family.mem_log_finish member with before | rfl
      · exact Or.inl before
      · exact Or.inr (Or.inl ⟨_, by simpa using cached, rfl⟩)
  | findsNothing waiting noZombie noBlock =>
      rcases Family.mem_log_finish member with before | rfl
      · exact Or.inl before
      · exact Or.inr (Or.inr (Or.inl ⟨_, waiting, noZombie, noBlock, rfl⟩))
  | @concludes child _ _ status buffer _ _ _ =>
      rcases Family.mem_log_finish member with before | rfl
      · exact Or.inl before
      · exact Or.inr (Or.inl ⟨concludeStatus status buffer, by simp, rfl⟩)
  | signals _ =>
      rcases List.mem_cons.mp member with rfl | before
      · exact Or.inr (Or.inr (Or.inr ⟨_, _, rfl, rfl⟩))
      · exact Or.inl before
  | returned _ _ => exact Or.inl member
  | ended _ => exact Or.inl member
  | begins _ _ _ => exact Or.inl member
  | reapsOwn _ _ => exact Or.inl member
  | reapsOther _ _ _ _ => exact Or.inl member
  | findsNobody _ _ _ => exact Or.inl member
  | reads _ _ _ => exact Or.inl member
  | interrupted => exact Or.inl member

omit [Fintype ι] in
/-- A signal that is sent in this step. -/
theorem sent_of_effect {handled : ι → Bool} {family next : Family ι Signal}
    {action : Action ι Signal} (effect : Effect handled family action next) {sent : Sent ι}
    (member : sent ∈ next.sent) :
    sent ∈ family.sent ∨ ∃ signal dead, family.parent = .signal sent.child signal dead ∧
      sent.stray = (family.procs sent.child).state.isReaped := by
  cases effect with
  | signals signaling =>
      rcases List.mem_cons.mp member with rfl | before
      · exact Or.inr ⟨_, _, signaling, rfl⟩
      · exact Or.inl before
  | cached _ _ _ => exact Or.inl (by simpa using member)
  | findsNothing _ _ _ => exact Or.inl (by simpa using member)
  | concludes _ _ => exact Or.inl (by simpa using member)
  | returned _ _ => exact Or.inl member
  | ended _ => exact Or.inl member
  | begins _ _ _ => exact Or.inl member
  | reapsOwn _ _ => exact Or.inl member
  | reapsOther _ _ _ _ => exact Or.inl member
  | findsNobody _ _ _ => exact Or.inl member
  | reads _ _ _ => exact Or.inl member
  | interrupted => exact Or.inl member

end Schtest.Child
