import Schtest.Child.Client
import Schtest.Sched.Ext

/-!
# The main program

`main` requires root, runs the given binary until it has installed a scheduler, runs
the tests, and drops the child.  Every question to the system, every call on the
child and every answer in such a call is one step; `run` may return with an error
at several places, where the child is dropped too.
-/

namespace Schtest.Main

open Schtest.Transition Schtest.Child Schtest.Sched

universe u v w

/-! ## The source -/

/-- What `main` returns: an error, or the conclusion of the tests. -/
inductive Outcome (ρ : Type w)
  | error (text : String)
  | exit (conclusion : ρ)
  deriving DecidableEq, Repr

/-- Where `main` is. -/
inductive Pc (ρ : Type w)
  | checkRoot
  /-- In `run`, asking for a scheduler before the spawn. -/
  | query
  | spawn
  /-- In its loop: about to call `child.alive()`, in the call, or behind it. -/
  | checkAlive
  | inAlive
  | ask
  | sleep
  /-- The child has ended: about to call `child.wait(true, false)`, or in the call. -/
  | fetch
  | inWait
  | runTests
  /-- The child, if there is one, goes out of scope. -/
  | drop (outcome : Outcome ρ)
  | inDrop (outcome : Outcome ρ)
  | ended (outcome : Outcome ρ)
  deriving DecidableEq, Repr

/-- The steps that the order of the program is about. -/
inductive Step (ι : Type u) (ρ : Type w)
  | installed (answer : Installed)
  | spawned (pid : ι)
  | tested (conclusion : ρ)

/-- `main` with its child. -/
abbrev Run (ι : Type u) (Signal : Type v) (ρ : Type w) :=
  Client ι Signal (Pc ρ) (Step ι ρ)

/-- What the system does or answers next. -/
inductive Action (ι : Type u) (Signal : Type v) (ρ : Type w)
  | geteuid (isRoot : Bool)
  | sysfs (files : SysFiles)
  | spawn (child : Except String ι)
  /-- The call on the child begins. -/
  | call
  /-- An answer in it. -/
  | answer (answer : HandleAction ι Signal)
  | wake
  | tests (conclusion : ρ)

variable {ι : Type u} {Signal : Type v} {ρ : Type w}

namespace Run

/-- An error, which drops the child on its way out. -/
def fail (run : Run ι Signal ρ) (text : String) : Run ι Signal ρ :=
  { run with pc := .drop (.error text) }

/-- `installed()` with its context, before the spawn. -/
def queried (run : Run ι Signal ρ) (answer : Installed) : Run ι Signal ρ :=
  let asked : Run ι Signal ρ := { run with log := .installed answer :: run.log }
  match answer with
  | .error _ => asked.fail "unable to query scheduler"
  | .ok (some name) => asked.fail ("scheduler already installed: " ++ String.ofList name)
  | .ok none => { asked with pc := .spawn }

/-- `installed()` with its context, in the loop. -/
def polled (run : Run ι Signal ρ) (answer : Installed) : Run ι Signal ρ :=
  let asked : Run ι Signal ρ := { run with log := .installed answer :: run.log }
  match answer with
  | .error _ => asked.fail "unable to query scheduler"
  | .ok (some _) => { asked with pc := .runTests }
  | .ok none => { asked with pc := .sleep }

/-- The error of a child that has ended too early. -/
def exitText : Option Result → String
  | some (.error text) => text
  | _ => "child exited without installing scheduler"

/-- Where a call has returned, `main` goes on. -/
def resume : Resume ι Signal (Pc ρ) (Step ι ρ) := fun pc handle =>
  match pc, handle.returned with
  | .inAlive, some (.alive alive) => (if alive then .ask else .fetch, [])
  | .inWait, some (.wait result) => (.drop (.error (exitText result)), [])
  | .inDrop outcome, _ =>
      match handle.pc with
      | .dropped => (.ended outcome, [])
      | _ => (.inDrop outcome, [])
  | pc, _ => (pc, [])

variable [DecidableEq ι] [ToString Signal] (sigkill : Signal)

/-- One step of `main`, which the system answers. -/
def step (binary : List String) (run : Run ι Signal ρ) (action : Action ι Signal ρ) :
    Option (Run ι Signal ρ) :=
  match run.pc, action with
  | .checkRoot, .geteuid isRoot =>
      if isRoot then some { run with pc := if binary.isEmpty then .runTests else .query }
      else some (run.fail "must run as root")
  | .query, .sysfs files => some (run.queried (installed files))
  | .spawn, .spawn child =>
      match child with
      | .error _ => some (run.fail "unable to spawn child process")
      | .ok pid => some (run.spawn .checkAlive pid (.spawned pid))
  | .checkAlive, .call => run.act sigkill resume .inAlive (.call .alive)
  | .ask, .sysfs files => some (run.polled (installed files))
  | .sleep, .wake => some { run with pc := .checkAlive }
  | .fetch, .call => run.act sigkill resume .inWait (.call (.wait true false))
  | .runTests, .tests conclusion =>
      some { run with pc := .drop (.exit conclusion), log := .tested conclusion :: run.log }
  | .drop outcome, .call =>
      match run.child with
      | none => some { run with pc := .ended outcome }
      | some _ => run.act sigkill resume (.inDrop outcome) .drop
  | .inAlive, .answer answer => run.answer sigkill resume answer
  | .inWait, .answer answer => run.answer sigkill resume answer
  | .inDrop _, .answer answer => run.answer sigkill resume answer
  | _, _ => none

end Run

/-- `main` with this binary and its arguments. -/
def system [DecidableEq ι] [ToString Signal] (sigkill : Signal) (binary : List String) :
    System (Run ι Signal ρ) (Action ι Signal ρ) where
  init run := run = ⟨.checkRoot, none, []⟩
  step := Run.step sigkill binary

/-! ## What has happened -/

/-- The child is spawned where no scheduler is installed, and none is found since. -/
inductive Polled (pid : ι) : List (Step ι ρ) → Prop
  | spawned : Polled pid [.spawned pid, .installed (.ok none)]
  | polled {log : List (Step ι ρ)} : Polled pid log → Polled pid (.installed (.ok none) :: log)

/-- The tests may run: no binary is given, or its scheduler is found. -/
def MayTest (binary : List String) (log : List (Step ι ρ)) : Prop :=
  binary = [] ∧ log = [] ∨
    ∃ pid name older, Polled pid older ∧ log = .installed (.ok (some name)) :: older

/-- Why `main` returns an error. -/
inductive Cause (child : Option (ι × Handle ι Signal)) (log : List (Step ι ρ)) : String → Prop
  | notRoot : log = [] → Cause child log "must run as root"
  | query (text : String) (older : List (Step ι ρ)) :
      log = .installed (.error text) :: older → Cause child log "unable to query scheduler"
  | already (name : List Char) : log = [.installed (.ok (some name))] →
      Cause child log ("scheduler already installed: " ++ String.ofList name)
  | spawn : log = [.installed (.ok none)] → Cause child log "unable to spawn child process"
  | exited (pid : ι) (handle : Handle ι Signal) (verdict : Result) :
      child = some (pid, handle) → Polled pid log → handle.result = some verdict →
        Cause child log (Run.exitText (some verdict))

/-- An outcome goes with what has happened. -/
def Justified (binary : List String) (child : Option (ι × Handle ι Signal))
    (log : List (Step ι ρ)) : Outcome ρ → Prop
  | .error text => Cause child log text ∧ ∀ conclusion, .tested conclusion ∉ log
  | .exit conclusion => ∃ older, log = .tested conclusion :: older ∧ MayTest binary older

/-- The child is alive, as far as is known, and was left alone. -/
def Tended (run : Run ι Signal ρ) (p : ι → Handle ι Signal → Prop) : Prop :=
  ∃ pid handle, run.child = some (pid, handle) ∧ Undisturbed handle ∧ p pid handle

/-- What holds at each place of the program. -/
def Placed (binary : List String) (run : Run ι Signal ρ) : Prop :=
  match run.pc with
  | .checkRoot => run.child = none ∧ run.log = []
  | .query => binary ≠ [] ∧ run.child = none ∧ run.log = []
  | .spawn => binary ≠ [] ∧ run.child = none ∧ run.log = [.installed (.ok none)]
  | .checkAlive => Tended run fun pid handle => handle.pc = .idle ∧ Polled pid run.log
  | .ask => Tended run fun pid handle => handle.pc = .idle ∧ Polled pid run.log
  | .sleep => Tended run fun pid handle => handle.pc = .idle ∧ Polled pid run.log
  | .inAlive => Tended run fun pid handle => InCall .alive handle ∧ Polled pid run.log
  | .fetch => Tended run fun pid handle =>
      handle.pc = .idle ∧ Polled pid run.log ∧ ∃ verdict, handle.result = some verdict
  | .inWait => False
  | .runTests => MayTest binary run.log ∧
      (run.child = none ∨ Tended run fun _ handle => handle.pc = .idle)
  | .drop outcome => Justified binary run.child run.log outcome ∧
      ∀ pid handle, run.child = some (pid, handle) → handle.pc = .idle
  | .inDrop outcome => Justified binary (none : Option (ι × Handle ι Signal)) run.log outcome ∧
      ∃ pid handle, run.child = some (pid, handle)
  | .ended outcome => Justified binary run.child run.log outcome ∧
      ∀ pid handle, run.child = some (pid, handle) → handle.pc = .dropped

variable {binary : List String} {run next : Run ι Signal ρ}

theorem Polled.notMem_tested {pid : ι} {log : List (Step ι ρ)} (polled : Polled pid log)
    (conclusion : ρ) : .tested conclusion ∉ log := by
  induction polled with
  | spawned => simp
  | polled _ ih => simpa using ih

section Childless

variable {child : Option (ι × Handle ι Signal)} {log : List (Step ι ρ)}

/-- A cause other than the end of the child. -/
theorem Cause.of_none {text : String}
    (cause : Cause (none : Option (ι × Handle ι Signal)) log text) : Cause child log text := by
  cases cause with
  | notRoot empty => exact .notRoot empty
  | query error older failed => exact .query error older failed
  | already name found => exact .already name found
  | spawn failed => exact .spawn failed
  | exited pid handle verdict child _ _ => cases child

theorem Justified.of_none {outcome : Outcome ρ}
    (justified : Justified binary (none : Option (ι × Handle ι Signal)) log outcome) :
    Justified binary child log outcome := by
  cases outcome with
  | error text => exact ⟨justified.1.of_none, justified.2⟩
  | exit conclusion => exact justified

/-- Where the child has ended, its verdict is kept. -/
theorem Justified.none_or {outcome : Outcome ρ} (justified : Justified binary child log outcome) :
    Justified binary (none : Option (ι × Handle ι Signal)) log outcome ∨
      ∃ pid handle verdict, child = some (pid, handle) ∧ Polled pid log ∧
        handle.result = some verdict ∧ outcome = .error (Run.exitText (some verdict)) := by
  cases outcome with
  | exit conclusion => exact .inl justified
  | error text =>
      obtain ⟨cause, untested⟩ := justified
      cases cause with
      | notRoot empty => exact .inl ⟨.notRoot empty, untested⟩
      | query error older failed => exact .inl ⟨.query error older failed, untested⟩
      | already name found => exact .inl ⟨.already name found, untested⟩
      | spawn failed => exact .inl ⟨.spawn failed, untested⟩
      | exited pid handle verdict child polled kept =>
          exact .inr ⟨pid, handle, verdict, child, polled, kept, rfl⟩

end Childless

variable [DecidableEq ι] [ToString Signal] {sigkill : Signal}

/-- What holds of every run of the program. -/
structure Sound (sigkill : Signal) (binary : List String) (run : Run ι Signal ρ) : Prop where
  owned : run.Owned sigkill Step.spawned
  placed : Placed binary run

/-- A step that leaves the child as it is and logs no spawn. -/
theorem Sound.quiet (sound : Sound sigkill binary run) (child : next.child = run.child)
    (log : ∀ pid, .spawned pid ∈ next.log → .spawned pid ∈ run.log)
    (placed : Placed binary next) : Sound sigkill binary next :=
  ⟨sound.owned.quiet child log, placed⟩

omit [DecidableEq ι] [ToString Signal] in
theorem resume_silent (pc : Pc ρ) (handle : Handle ι Signal) : (Run.resume pc handle).2 = [] := by
  unfold Run.resume
  split
  · rfl
  · rfl
  · split <;> rfl
  · rfl

/-- A step of the child. -/
theorem Sound.withHandle (sound : Sound sigkill binary run) {pid : ι}
    {handle handleNext : Handle ι Signal} (child : run.child = some (pid, handle))
    {action : HandleAction ι Signal}
    (step : handleStep pid sigkill handle action = some handleNext) {pc : Pc ρ}
    (placed : Placed binary (run.withHandle Run.resume pc pid handleNext)) :
    Sound sigkill binary (run.withHandle Run.resume pc pid handleNext) :=
  ⟨sound.owned.withHandle child step pc (by simp [resume_silent]), placed⟩

/-! ## One step -/

theorem Sound.root (sound : Sound sigkill binary run) (isRoot : Bool) (here : run.pc = .checkRoot) :
    Sound sigkill binary
      (if isRoot then { run with pc := if binary.isEmpty then .runTests else .query }
        else run.fail "must run as root") := by
  have placed := sound.placed
  simp only [Placed, here] at placed
  obtain ⟨child, log⟩ := placed
  cases isRoot with
  | false =>
      refine sound.quiet rfl (fun _ member => member) ⟨⟨.notRoot log, ?_⟩, ?_⟩
      · simp [Run.fail, log]
      · intro pid handle some
        exact absurd (child.symm.trans some) (by simp)
  | true =>
      refine sound.quiet rfl (fun _ member => member) ?_
      cases binary with
      | nil => exact ⟨.inl ⟨rfl, log⟩, .inl child⟩
      | cons first rest => exact ⟨List.cons_ne_nil first rest, child, log⟩

theorem Sound.queried (sound : Sound sigkill binary run) (here : run.pc = .query)
    (answer : Installed) : Sound sigkill binary (run.queried answer) := by
  have placed := sound.placed
  simp only [Placed, here] at placed
  obtain ⟨given, child, log⟩ := placed
  have absent (pid : ι) (handle : Handle ι Signal) :
      run.child = some (pid, handle) → handle.pc = .idle := by
    intro found
    rw [child] at found
    cases found
  match answer with
  | .error text =>
      refine sound.quiet rfl (by simp [Run.queried, Run.fail]) ⟨⟨?_, ?_⟩, absent⟩
      · exact .query text run.log rfl
      · simp [Run.queried, Run.fail, log]
  | .ok (some name) =>
      refine sound.quiet rfl (by simp [Run.queried, Run.fail]) ⟨⟨?_, ?_⟩, absent⟩
      · refine .already name ?_
        simp [Run.queried, Run.fail, log]
      · simp [Run.queried, Run.fail, log]
  | .ok none =>
      refine sound.quiet rfl (by simp [Run.queried]) ⟨given, child, ?_⟩
      simp [Run.queried, log]

theorem Sound.polled (sound : Sound sigkill binary run) (here : run.pc = .ask)
    (answer : Installed) : Sound sigkill binary (run.polled answer) := by
  have placed := sound.placed
  simp only [Placed, here] at placed
  obtain ⟨pid, handle, child, undisturbed, idle, polled⟩ := placed
  have untested := polled.notMem_tested
  match answer with
  | .error text =>
      refine sound.quiet rfl (by simp [Run.polled, Run.fail]) ⟨⟨?_, ?_⟩, ?_⟩
      · exact .query text run.log rfl
      · simpa [Run.polled, Run.fail] using untested
      · intro pid' handle' found
        cases child.symm.trans found
        exact idle
  | .ok (some name) =>
      refine sound.quiet rfl (by simp [Run.polled]) ⟨?_, ?_⟩
      · exact .inr ⟨pid, name, run.log, polled, rfl⟩
      · exact .inr ⟨pid, handle, child, undisturbed, idle⟩
  | .ok none =>
      refine sound.quiet rfl (by simp [Run.polled]) ?_
      exact ⟨pid, handle, child, undisturbed, idle, polled.polled⟩

omit [DecidableEq ι] [ToString Signal] in
/-- Where a call of `alive` has come to. -/
theorem placed_inAlive {pid : ι} {handle : Handle ι Signal} (undisturbed : Undisturbed handle)
    (inCall : InCall .alive handle) (polled : Polled pid run.log) :
    Placed binary (run.withHandle Run.resume .inAlive pid handle) := by
  by_cases idle : handle.pc = .idle
  · obtain ⟨reply, returned, fits⟩ := inCall.exists_reply idle
    cases reply with
    | alive answer =>
        have told : answer = handle.result.isNone := fits
        cases kept : handle.result with
        | none =>
            have goes : (Run.resume .inAlive handle : Pc ρ × List (Step ι ρ)) = (.ask, []) := by
              simp [Run.resume, returned, told, kept]
            simp only [Placed, Client.withHandle, goes, List.nil_append]
            exact ⟨pid, handle, rfl, undisturbed, idle, polled⟩
        | some verdict =>
            have goes : (Run.resume .inAlive handle : Pc ρ × List (Step ι ρ)) =
                (.fetch, []) := by
              simp [Run.resume, returned, told, kept]
            simp only [Placed, Client.withHandle, goes, List.nil_append]
            exact ⟨pid, handle, rfl, undisturbed, idle, polled, verdict, kept⟩
    | wait result => exact fits.elim
    | kill result => exact fits.elim
  · have goes : (Run.resume .inAlive handle : Pc ρ × List (Step ι ρ)) = (.inAlive, []) := by
      simp [Run.resume, Handle.returned_eq_none idle]
    simp only [Placed, Client.withHandle, goes, List.nil_append]
    exact ⟨pid, handle, rfl, undisturbed, inCall, polled⟩

/-- The verdict is fetched at once. -/
theorem Sound.fetch (sound : Sound sigkill binary run) (here : run.pc = .fetch)
    (step : run.act sigkill Run.resume .inWait (.call (.wait true false)) = some next) :
    Sound sigkill binary next := by
  have placed := sound.placed
  simp only [Placed, here] at placed
  obtain ⟨pid, handle, child, _, idle, polled, verdict, kept⟩ := placed
  obtain ⟨pid', handle', handleNext, child', handleStep, rfl⟩ := Client.act_eq_some_iff.mp step
  cases child.symm.trans child'
  have concluded := concluded_of_reachable (sound.owned.handles pid handle child) kept
  apply sound.withHandle child handleStep
  have called : Child.handleStep pid sigkill handle (.call (.wait true false)) = _ :=
    concluded.call_step idle _
  rw [called] at handleStep
  cases handleStep
  refine ⟨⟨.exited pid _ verdict rfl polled kept, polled.notMem_tested⟩, ?_⟩
  rintro pid' handle' same
  cases same
  rfl

omit [DecidableEq ι] [ToString Signal] in
/-- Where the destructor has come to. -/
theorem placed_inDrop {pid : ι} (handle : Handle ι Signal) {outcome : Outcome ρ}
    (justified : Justified binary (none : Option (ι × Handle ι Signal)) run.log outcome) :
    Placed binary (run.withHandle Run.resume (.inDrop outcome) pid handle) := by
  cases at_pc : handle.pc with
  | dropped =>
      have goes : (Run.resume (.inDrop outcome) handle : Pc ρ × List (Step ι ρ)) =
          (.ended outcome, []) := by
        simp [Run.resume, at_pc]
      simp only [Placed, Client.withHandle, goes, List.nil_append]
      refine ⟨justified.of_none, ?_⟩
      rintro pid' handle' same
      cases same
      exact at_pc
  | _ =>
      have goes : (Run.resume (.inDrop outcome) handle : Pc ρ × List (Step ι ρ)) =
          (.inDrop outcome, []) := by
        simp [Run.resume, at_pc]
      simp only [Placed, Client.withHandle, goes, List.nil_append]
      exact ⟨justified, pid, handle, rfl⟩

theorem Sound.drop (sound : Sound sigkill binary run) {outcome : Outcome ρ}
    (here : run.pc = .drop outcome)
    (step : run.act sigkill Run.resume (.inDrop outcome) .drop = some next) :
    Sound sigkill binary next := by
  have placed := sound.placed
  simp only [Placed, here] at placed
  obtain ⟨justified, idle⟩ := placed
  obtain ⟨pid, handle, handleNext, child, handleStep, rfl⟩ := Client.act_eq_some_iff.mp step
  apply sound.withHandle child handleStep
  rcases justified.none_or with justified | ⟨pid', handle', verdict, child', polled, kept, rfl⟩
  · exact placed_inDrop handleNext justified
  · cases child.symm.trans child'
    have concluded := concluded_of_reachable (sound.owned.handles pid handle child) kept
    have dropped : Child.handleStep pid sigkill handle .drop = _ :=
      concluded.drop_step (idle pid handle child)
    rw [dropped] at handleStep
    cases handleStep
    refine ⟨⟨.exited pid _ verdict rfl polled kept, polled.notMem_tested⟩, ?_⟩
    rintro pid' handle' same
    cases same
    rfl

theorem Sound.inDrop (sound : Sound sigkill binary run) {outcome : Outcome ρ}
    (here : run.pc = .inDrop outcome) {action : HandleAction ι Signal}
    (step : run.act sigkill Run.resume (.inDrop outcome) action = some next) :
    Sound sigkill binary next := by
  have placed := sound.placed
  simp only [Placed, here] at placed
  obtain ⟨pid, handle, handleNext, child, handleStep, rfl⟩ := Client.act_eq_some_iff.mp step
  exact sound.withHandle child handleStep (placed_inDrop handleNext placed.1)

theorem Sound.step (sound : Sound sigkill binary run) {action : Action ι Signal ρ}
    (step : run.step sigkill binary action = some next) : Sound sigkill binary next := by
  have placed := sound.placed
  unfold Run.step at step
  split at step
  case h_1 isRoot here =>
    have rooted := sound.root isRoot here
    cases isRoot <;> cases step <;> exact rooted
  case h_2 files here =>
    cases step
    exact sound.queried here _
  case h_3 child here =>
    simp only [Placed, here] at placed
    obtain ⟨given, child, log⟩ := placed
    split at step
    · cases step
      refine sound.quiet rfl (fun _ member => member) ⟨⟨.spawn log, ?_⟩, ?_⟩
      · simp [Run.fail, log]
      · intro pid handle found
        cases child.symm.trans found
    · rename_i pid
      cases step
      constructor
      case owned =>
        refine Client.Owned.spawn ?_ (fun _ _ same => by cases same; rfl) _ pid
        simp [log]
      case placed =>
        refine ⟨pid, _, rfl, List.forall_mem_nil _, rfl, ?_⟩
        rw [Client.spawn, log]
        exact .spawned
  case h_4 here =>
    simp only [Placed, here] at placed
    obtain ⟨pid, handle, child, undisturbed, idle, polled⟩ := placed
    obtain ⟨pid', handle', handleNext, child', handleStep, rfl⟩ := Client.act_eq_some_iff.mp step
    cases child.symm.trans child'
    have quiet := undisturbed.step handleStep (by simp) (by simp [idle])
    exact sound.withHandle child handleStep
      (placed_inAlive quiet (inCall_of_call handleStep) polled)
  case h_5 files here =>
    cases step
    exact sound.polled here _
  case h_6 here =>
    cases step
    simp only [Placed, here] at placed
    exact sound.quiet rfl (fun _ member => member) placed
  case h_7 here => exact sound.fetch here step
  case h_8 conclusion here =>
    cases step
    simp only [Placed, here] at placed
    obtain ⟨mayTest, tended⟩ := placed
    refine sound.quiet rfl (by simp) ⟨⟨run.log, rfl, mayTest⟩, ?_⟩
    intro pid handle found
    rcases tended with absent | ⟨pid', handle', child, _, idle⟩
    · cases absent.symm.trans found
    · cases child.symm.trans found
      exact idle
  case h_9 outcome here =>
    split at step
    · rename_i absent
      cases step
      simp only [Placed, here] at placed
      refine sound.quiet rfl (fun _ member => member) ⟨placed.1, ?_⟩
      intro pid handle found
      cases absent.symm.trans found
    · exact sound.drop here step
  case h_10 answer here =>
    simp only [Placed, here] at placed
    obtain ⟨pid, handle, child, undisturbed, inCall, polled⟩ := placed
    obtain ⟨isAnswer, step⟩ := Client.answer_eq_some_iff.mp step
    obtain ⟨pid', handle', handleNext, child', handleStep, rfl⟩ := Client.act_eq_some_iff.mp step
    cases child.symm.trans child'
    have phase := sound.owned.phase child
    have kept : answer ≠ .drop := by
      rintro rfl
      cases isAnswer
    have quiet := undisturbed.step handleStep kept (inCall.silent (by simp))
    rw [here]
    exact sound.withHandle child handleStep
      (placed_inAlive quiet (inCall.step phase isAnswer handleStep) polled)
  case h_11 answer here =>
    simp only [Placed, here] at placed
  case h_12 outcome answer here =>
    obtain ⟨_, step⟩ := Client.answer_eq_some_iff.mp step
    rw [here] at step
    exact sound.inDrop here step
  case h_13 => contradiction

theorem sound_of_reachable (reachable : (system sigkill binary).Reachable run) :
    Sound sigkill binary run := by
  apply reachable.invariant
  case base =>
    rintro run rfl
    exact ⟨.init _, rfl, rfl⟩
  case preserve =>
    intro run action next _ step sound
    exact sound.step step

/-! ## Whole runs -/

omit [DecidableEq ι] [ToString Signal] in
theorem MayTest.notMem_tested {log : List (Step ι ρ)} (mayTest : MayTest binary log)
    (conclusion : ρ) : .tested conclusion ∉ log := by
  rcases mayTest with ⟨_, rfl⟩ | ⟨pid, name, older, polled, rfl⟩
  · simp
  · simpa using polled.notMem_tested conclusion

omit [DecidableEq ι] [ToString Signal] in
/-- The tests are the last thing that is logged. -/
theorem Justified.tested {outcome : Outcome ρ} {child : Option (ι × Handle ι Signal)}
    {log : List (Step ι ρ)} (justified : Justified binary child log outcome) {conclusion : ρ}
    (member : .tested conclusion ∈ log) :
    ∃ conclusion older, log = .tested conclusion :: older ∧ MayTest binary older := by
  cases outcome with
  | error text => exact absurd member (justified.2 conclusion)
  | exit other => exact ⟨other, justified⟩

omit [DecidableEq ι] [ToString Signal] in
theorem Placed.tested (placed : Placed binary run) {conclusion : ρ}
    (member : .tested conclusion ∈ run.log) :
    ∃ conclusion older, run.log = .tested conclusion :: older ∧ MayTest binary older := by
  have tended {p : ι → Handle ι Signal → Prop} (polled : ∀ pid handle, p pid handle →
      Polled pid run.log) (tended : Tended run p) : False := by
    obtain ⟨pid, handle, _, _, holds⟩ := tended
    exact (polled pid handle holds).notMem_tested conclusion member
  unfold Placed at placed
  split at placed
  case h_1 => simp [placed.2] at member
  case h_2 => simp [placed.2.2] at member
  case h_3 => simp [placed.2.2] at member
  case h_4 => exact (tended (fun _ _ holds => holds.2) placed).elim
  case h_5 => exact (tended (fun _ _ holds => holds.2) placed).elim
  case h_6 => exact (tended (fun _ _ holds => holds.2) placed).elim
  case h_7 => exact (tended (fun _ _ holds => holds.2) placed).elim
  case h_8 => exact (tended (fun _ _ holds => holds.2.1) placed).elim
  case h_9 => exact placed.elim
  case h_10 => exact absurd member (placed.1.notMem_tested conclusion)
  case h_11 => exact placed.1.tested member
  case h_12 => exact placed.1.tested member
  case h_13 => exact placed.1.tested member

/-- What a run of the program keeps to. -/
structure KeepsOrder (binary : List String) (run : Run ι Signal ρ) : Prop where
  /-- The tests run once at most, and only when no binary is given, or when no scheduler
  was installed, the binary was started, and then a scheduler was found. -/
  guarded : ∀ newer conclusion older, run.log = newer ++ .tested conclusion :: older →
    newer = [] ∧ MayTest binary older
  /-- While they run, nothing but `alive` was called on the child. -/
  undisturbed : run.pc = .runTests → ∀ pid handle, run.child = some (pid, handle) →
    Undisturbed handle
  /-- Where `main` ends, the end of the child that was started has been reported. -/
  reaped : ∀ outcome pid, run.pc = .ended outcome → .spawned pid ∈ run.log →
    ∃ handle verdict, run.child = some (pid, handle) ∧ handle.pc = .dropped ∧
      Concluded pid verdict handle
  /-- An error names its cause, and no tests were run before it. -/
  error : ∀ text, run.pc = .ended (.error text) →
    Cause run.child run.log text ∧ ∀ conclusion, .tested conclusion ∉ run.log
  /-- Otherwise `main` returns what the tests gave. -/
  exit : ∀ conclusion, run.pc = .ended (.exit conclusion) →
    ∃ older, run.log = .tested conclusion :: older ∧ MayTest binary older

/-- The state of `sched_ext` before and after a scheduler called `simple` is enabled. -/
def disabled : SysFiles where
  available := true
  state := .text "disabled\n".toList
  ops := .absent

/-- A system on which a scheduler is enabled. -/
def enabled : SysFiles where
  available := true
  state := .text "enabled\n".toList
  ops := .text "simple\n".toList

/-- The scheduler appears at the second look, and is killed after the tests. -/
def scheduled : List (Action Nat String Bool) :=
  [.geteuid true, .sysfs disabled, .spawn (.ok 7), .call, .answer (.waitpid .stillAlive),
    .sysfs disabled, .wake, .call, .answer (.waitpid .stillAlive), .sysfs enabled, .tests true,
    .call, .answer (.waitpid .stillAlive), .answer (.kill (.ok ())),
    .answer (.waitpid (.status 7 (.signaled "SIGKILL"))), .answer (.read (.bytes []))]

end Schtest.Main
