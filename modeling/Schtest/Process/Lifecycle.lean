import Schtest.Child.Client

/-!
# The life of a process

`Process::create` makes a cgroup, allocates the shared objects, starts the child and
waits until it is ready; it may fail at each step.  `Drop` joins the child, then
drops the cgroup, and then the handle of the child.  The destructor of the cgroup
calls `remove_dir_all` and ignores what it returns.
-/

namespace Schtest.Process.Lifecycle

open Schtest.Transition Schtest.Child

universe u v

/-! ## The source -/

/-- Where the owner is with a process. -/
inductive Place
  /-- In `create`: about to make the cgroup, to allocate so many objects, to start the
  child. -/
  | cgroup
  | allocate (left : Nat)
  | spawn
  /-- In `wait`, called by `create` or by the context: about to consume from `ready`,
  to call `child.alive()`, or in that call. -/
  | ready (creating : Bool)
  | checkAlive (creating : Bool)
  | inAlive (creating : Bool)
  /-- The process is there, and nothing is being done with it. -/
  | held
  /-- In `join`, called by `drop` or not: about to call `child.kill` or `child.wait`, or
  in such a call. -/
  | join (dropping : Bool)
  | inKill (dropping : Bool)
  | joinWait (dropping : Bool)
  | inWait (dropping : Bool)
  /-- Dropping the fields. -/
  | removeCgroup
  | dropChild
  | inDrop
  | gone
  deriving DecidableEq, Repr

/-- What is done for a process. -/
inductive Step (ι : Type u)
  | cgroup
  | spawned (pid : ι)
  /-- `join` has waited for the child. -/
  | joined
  /-- `join` has returned since the signal could not be sent. -/
  | unkilled
  /-- `remove_dir_all` was called for the cgroup, and has removed it or not. -/
  | removal (removed : Bool)
  deriving DecidableEq, Repr

/-- What the system answers, or the owner begins. -/
inductive Action (ι : Type u) (Signal : Type v)
  | cgroup (made : Bool)
  | allocate (allocated : Bool)
  | spawn (child : Option ι)
  | consume (acquired : Bool)
  | wait
  | join
  | drop
  /-- The call on the child begins. -/
  | call
  | answer (answer : HandleAction ι Signal)
  | remove (removed : Bool)

variable {ι : Type u} {Signal : Type v}

/-- The owner's view of one process. -/
abbrev Life (ι : Type u) (Signal : Type v) :=
  Client ι Signal Place (Step ι)

namespace Life

/-- `Process::create` is called. -/
def new : Life ι Signal :=
  ⟨.cgroup, none, []⟩

/-- `join` is over. -/
def joined (dropping : Bool) : Place :=
  if dropping then .removeCgroup else .held

/-- Where a call has returned, the owner goes on. -/
def resume : Resume ι Signal Place (Step ι) := fun pc handle =>
  match pc, handle.returned with
  | .inAlive creating, some (.alive alive) =>
      -- "Process exited unexpectedly": in `create`, the new process is dropped
      (if alive then .ready creating else if creating then .join true else .held, [])
  | .inKill dropping, some (.kill (.ok _)) => (.joinWait dropping, [])
  | .inKill dropping, some (.kill (.error _)) => (joined dropping, [.unkilled])
  | .inWait dropping, some (.wait _) => (joined dropping, [.joined])
  | .inDrop, _ =>
      match handle.pc with
      | .dropped => (.gone, [])
      | _ => (.inDrop, [])
  | pc, _ => (pc, [])

/-- Nothing else changes. -/
def move (life : Life ι Signal) (pc : Place) : Life ι Signal :=
  { life with pc := pc }

variable [DecidableEq ι] [ToString Signal] (sigkill : Signal)

/-- One step of the owner for a process. -/
def step (life : Life ι Signal) (action : Action ι Signal) : Option (Life ι Signal) :=
  match life.pc, action with
  | .cgroup, .cgroup made =>
      some (if made then { life with pc := .allocate 2, log := .cgroup :: life.log }
        else life.move .gone)
  | .allocate left, .allocate allocated =>
      some (life.move
        (if allocated then
          match left with
          | 0 => .spawn
          | left + 1 => .allocate left
        else .removeCgroup))
  | .spawn, .spawn none => some (life.move .removeCgroup)
  | .spawn, .spawn (some pid) => some (Client.spawn life (.ready true) pid (.spawned pid))
  | .ready creating, .consume acquired =>
      some (life.move (if acquired then .held else .checkAlive creating))
  | .checkAlive creating, .call => life.act sigkill resume (.inAlive creating) (.call .alive)
  | .held, .wait => some (life.move (.ready false))
  | .held, .join => some (life.move (.join false))
  | .held, .drop => some (life.move (.join true))
  | .join dropping, .call => life.act sigkill resume (.inKill dropping) (.call (.kill sigkill))
  | .joinWait dropping, .call =>
      life.act sigkill resume (.inWait dropping) (.call (.wait true false))
  | .removeCgroup, .remove removed => -- `let _ = fs::remove_dir_all(path)`
      some { life with
        pc := if life.child.isSome then .dropChild else .gone
        log := .removal removed :: life.log }
  | .dropChild, .call => life.act sigkill resume .inDrop .drop
  | .inAlive _, .answer answer => life.answer sigkill resume answer
  | .inKill _, .answer answer => life.answer sigkill resume answer
  | .inWait _, .answer answer => life.answer sigkill resume answer
  | .inDrop, .answer answer => life.answer sigkill resume answer
  | _, _ => none

end Life

/-! ## What has been done for a process -/

/-- A child was started in a cgroup, and possibly joined. -/
inductive Used (pid : ι) : List (Step ι) → Prop
  | spawned : Used pid [.spawned pid, .cgroup]
  | joined {log : List (Step ι)} : Used pid log → Used pid (.joined :: log)
  | unkilled {log : List (Step ι)} : Used pid log → Used pid (.unkilled :: log)

/-- The last thing done is a call of `join`. -/
def JoinedLast (log : List (Step ι)) : Prop :=
  log.head? = some .joined ∨ log.head? = some .unkilled

/-- There is a child, in a cgroup. -/
def Uses (life : Life ι Signal) (p : Handle ι Signal → Prop) : Prop :=
  ∃ pid handle, life.child = some (pid, handle) ∧ Used pid life.log ∧ p handle

/-- The cgroup of the child was to be removed, after a call of `join`. -/
def Removed (life : Life ι Signal) (p : Handle ι Signal → Prop) : Prop :=
  ∃ pid handle removed older, life.child = some (pid, handle) ∧
    life.log = .removal removed :: older ∧ Used pid older ∧ JoinedLast older ∧ p handle

/-- What holds at each place. -/
def Placed (sigkill : Signal) (life : Life ι Signal) : Prop :=
  match life.pc with
  | .cgroup => life.child = none ∧ life.log = []
  | .allocate _ => life.child = none ∧ life.log = [.cgroup]
  | .spawn => life.child = none ∧ life.log = [.cgroup]
  | .ready _ => Uses life fun handle => handle.pc = .idle
  | .checkAlive _ => Uses life fun handle => handle.pc = .idle
  | .held => Uses life fun handle => handle.pc = .idle
  | .join _ => Uses life fun handle => handle.pc = .idle
  | .joinWait _ => Uses life fun handle => handle.pc = .idle
  | .inAlive _ => Uses life (InCall .alive)
  | .inKill _ => Uses life (InCall (.kill sigkill))
  | .inWait _ => Uses life (InCall (.wait true false))
  | .removeCgroup => life.child = none ∧ life.log = [.cgroup] ∨
      (Uses life fun handle => handle.pc = .idle) ∧ JoinedLast life.log
  | .dropChild => Removed life fun handle => handle.pc = .idle
  | .inDrop => Removed life fun _ => True
  | .gone =>
      life.child = none ∧ (life.log = [] ∨ ∃ removed, life.log = [.removal removed, .cgroup]) ∨
        Removed life fun handle => handle.pc = .dropped

variable [DecidableEq ι] [ToString Signal] {sigkill : Signal} {life next : Life ι Signal}

/-- What holds of every life. -/
structure Sound (sigkill : Signal) (life : Life ι Signal) : Prop where
  owned : life.Owned sigkill Step.spawned
  /-- Where `join` has waited, the result is kept. -/
  known : .joined ∈ life.log → ∀ pid handle, life.child = some (pid, handle) →
    handle.result ≠ none
  placed : Placed sigkill life

omit [DecidableEq ι] [ToString Signal] in
theorem Life.resume_silent (pc : Place) (handle : Handle ι Signal) (pid : ι) :
    .spawned pid ∉ (Life.resume pc handle).2 := by
  unfold Life.resume
  split
  · simp
  · simp
  · simp
  · simp
  · split <;> simp
  · simp

omit [DecidableEq ι] [ToString Signal] in
/-- `join` has waited only where the call has returned. -/
theorem Life.resume_joined {pc : Place} {handle : Handle ι Signal}
    (member : .joined ∈ (Life.resume pc handle).2) :
    ∃ dropping result, pc = .inWait dropping ∧ handle.returned = some (.wait result) := by
  unfold Life.resume at member
  split at member
  · simp at member
  · simp at member
  · simp at member
  · rename_i dropping result returned
    exact ⟨dropping, result, rfl, returned⟩
  · split at member <;> simp at member
  · simp at member

/-- A step that leaves the child as it is. -/
theorem Sound.quiet (sound : Sound sigkill life) (child : next.child = life.child)
    (log : next.log = life.log ∨ ∃ event, next.log = event :: life.log ∧ event ≠ .joined ∧
      ∀ pid, event ≠ .spawned pid)
    (placed : Placed sigkill next) : Sound sigkill next := by
  have older (event : Step ι) (old : event = .joined ∨ ∃ pid, event = .spawned pid)
      (member : event ∈ next.log) : event ∈ life.log := by
    rcases log with same | ⟨newest, log, other, unspawned⟩
    · rwa [same] at member
    · rw [log] at member
      refine (List.mem_cons.mp member).resolve_left ?_
      rintro rfl
      rcases old with same | ⟨pid, same⟩
      · exact other same
      · exact unspawned pid same
  constructor
  case owned => exact sound.owned.quiet child fun pid => older _ (.inr ⟨pid, rfl⟩)
  case known =>
    rw [child]
    exact fun member => sound.known (older _ (.inl rfl) member)
  case placed => exact placed

/-- A step of the child. -/
theorem Sound.withHandle (sound : Sound sigkill life) {pid : ι}
    {handle handleNext : Handle ι Signal} (child : life.child = some (pid, handle))
    {action : HandleAction ι Signal}
    (step : handleStep pid sigkill handle action = some handleNext) {pc : Place}
    (waits : ∀ dropping, pc = .inWait dropping → InCall (.wait true false) handleNext)
    (placed : Placed sigkill (life.withHandle Life.resume pc pid handleNext)) :
    Sound sigkill (life.withHandle Life.resume pc pid handleNext) where
  owned := sound.owned.withHandle child step pc fun pid handle =>
    Life.resume_silent pc handle pid
  known member := by
    rintro pid' handle' same
    cases same
    rcases List.mem_append.mp member with newest | older
    · obtain ⟨dropping, result, here, returned⟩ := Life.resume_joined newest
      obtain ⟨idle, _⟩ := Handle.returned_eq_some_iff.mp returned
      obtain ⟨reply, returned', fits⟩ := (waits dropping here).exists_reply idle
      cases returned.symm.trans returned'
      exact fits.2 rfl
    · have known := sound.known older pid handle child
      obtain ⟨verdict, kept⟩ := Option.ne_none_iff_exists'.mp known
      have still := kept_of_step (sound.owned.handles pid handle child) step kept
      simp [still]
  placed := placed

/-! ## Calls on the child -/

section Calls

variable {pid : ι} {handle : Handle ι Signal}

omit [DecidableEq ι] [ToString Signal] in
theorem placed_inAlive (used : Used pid life.log) (inCall : InCall .alive handle)
    (creating : Bool) :
    Placed sigkill (life.withHandle Life.resume (.inAlive creating) pid handle) := by
  by_cases idle : handle.pc = .idle
  · obtain ⟨reply, returned, fits⟩ := inCall.exists_reply idle
    cases reply with
    | alive answer =>
        cases answer <;> cases creating <;>
          simp only [Placed, Client.withHandle, Life.resume, returned, List.nil_append] <;>
          exact ⟨pid, handle, rfl, used, idle⟩
    | wait result => exact fits.elim
    | kill result => exact fits.elim
  · simp only [Placed, Client.withHandle, Life.resume, Handle.returned_eq_none idle,
      List.nil_append]
    exact ⟨pid, handle, rfl, used, inCall⟩

omit [DecidableEq ι] [ToString Signal] in
theorem placed_joined (used : Used pid life.log) (idle : handle.pc = .idle)
    (last : JoinedLast life.log) (child : life.child = some (pid, handle)) (dropping : Bool)
    (pc : life.pc = Life.joined dropping) : Placed sigkill life := by
  cases dropping with
  | false =>
      simp only [Placed, pc, Life.joined]
      exact ⟨pid, handle, child, used, idle⟩
  | true =>
      simp only [Placed, pc, Life.joined]
      exact .inr ⟨⟨pid, handle, child, used, idle⟩, last⟩

omit [DecidableEq ι] [ToString Signal] in
theorem placed_inKill (used : Used pid life.log) (inCall : InCall (.kill sigkill) handle)
    (dropping : Bool) :
    Placed sigkill (life.withHandle Life.resume (.inKill dropping) pid handle) := by
  by_cases idle : handle.pc = .idle
  · obtain ⟨reply, returned, fits⟩ := inCall.exists_reply idle
    cases reply with
    | kill result =>
        cases result with
        | ok _ =>
            simp only [Placed, Client.withHandle, Life.resume, returned, List.nil_append]
            exact ⟨pid, handle, rfl, used, idle⟩
        | error text =>
            have goes : Life.resume (.inKill dropping) handle =
                (Life.joined dropping, [.unkilled]) := by
              simp [Life.resume, returned]
            refine placed_joined ?_ idle ?_ rfl dropping (congrArg Prod.fst goes)
            · simp only [Client.withHandle, goes]
              exact used.unkilled
            · simp only [Client.withHandle, goes]
              exact .inr rfl
    | wait result => exact fits.elim
    | alive answer => exact fits.elim
  · simp only [Placed, Client.withHandle, Life.resume, Handle.returned_eq_none idle,
      List.nil_append]
    exact ⟨pid, handle, rfl, used, inCall⟩

omit [DecidableEq ι] [ToString Signal] in
theorem placed_inWait (used : Used pid life.log) (inCall : InCall (.wait true false) handle)
    (dropping : Bool) :
    Placed sigkill (life.withHandle Life.resume (.inWait dropping) pid handle) := by
  by_cases idle : handle.pc = .idle
  · obtain ⟨reply, returned, fits⟩ := inCall.exists_reply idle
    cases reply with
    | wait result =>
        have goes : Life.resume (.inWait dropping) handle =
            (Life.joined dropping, [.joined]) := by
          simp [Life.resume, returned]
        refine placed_joined ?_ idle ?_ rfl dropping (congrArg Prod.fst goes)
        · simp only [Client.withHandle, goes]
          exact used.joined
        · simp only [Client.withHandle, goes]
          exact .inl rfl
    | kill result => exact fits.elim
    | alive answer => exact fits.elim
  · simp only [Placed, Client.withHandle, Life.resume, Handle.returned_eq_none idle,
      List.nil_append]
    exact ⟨pid, handle, rfl, used, inCall⟩

omit [DecidableEq ι] [ToString Signal] in
/-- Where the destructor of the child has come to. -/
theorem placed_inDrop {older : List (Step ι)} {removed : Bool}
    (attempted : life.log = .removal removed :: older)
    (used : Used pid older) (last : JoinedLast older) (handle : Handle ι Signal) :
    Placed sigkill (life.withHandle Life.resume .inDrop pid handle) := by
  have silent : (Life.resume .inDrop handle : Place × List (Step ι)).2 = [] := by
    cases at_pc : handle.pc <;> simp [Life.resume, at_pc]
  have log : (life.withHandle Life.resume .inDrop pid handle).log =
      .removal removed :: older := by
    simp [Client.withHandle, silent, attempted]
  by_cases dropped : handle.pc = .dropped
  · have goes : (life.withHandle Life.resume .inDrop pid handle).pc = .gone := by
      simp [Client.withHandle, Life.resume, dropped]
    rw [Placed, goes]
    exact .inr ⟨pid, handle, removed, older, rfl, log, used, last, dropped⟩
  · have goes : (life.withHandle Life.resume .inDrop pid handle).pc = .inDrop := by
      cases at_pc : handle.pc with
      | dropped => exact absurd at_pc dropped
      | _ => simp [Client.withHandle, Life.resume, at_pc]
    rw [Placed, goes]
    exact ⟨pid, handle, removed, older, rfl, log, used, last, trivial⟩

end Calls

/-- A call begins at a place where there is a child at rest. -/
theorem Sound.call (sound : Sound sigkill life) {pc : Place} {call : Call Signal}
    (uses : Uses life fun handle => handle.pc = .idle)
    (step : life.act sigkill Life.resume pc (.call call) = some next)
    (waits : ∀ dropping, pc = .inWait dropping → call = .wait true false)
    (placed : ∀ pid (handle : Handle ι Signal), Used pid life.log → InCall call handle →
      Placed sigkill (life.withHandle Life.resume pc pid handle)) : Sound sigkill next := by
  obtain ⟨pid, handle, child, used, idle⟩ := uses
  obtain ⟨pid', handle', handleNext, child', handleStep, rfl⟩ := Client.act_eq_some_iff.mp step
  cases child.symm.trans child'
  have inCall := inCall_of_call handleStep
  exact sound.withHandle child handleStep (fun dropping here => waits dropping here ▸ inCall)
    (placed pid handleNext used inCall)

/-- An answer in a call. -/
theorem Sound.answer (sound : Sound sigkill life) {pc : Place} (here : life.pc = pc)
    {call : Call Signal} {answer : HandleAction ι Signal} (uses : Uses life (InCall call))
    (step : life.answer sigkill Life.resume answer = some next)
    (waits : ∀ dropping, pc = .inWait dropping → call = .wait true false)
    (placed : ∀ pid (handle : Handle ι Signal), Used pid life.log → InCall call handle →
      Placed sigkill (life.withHandle Life.resume pc pid handle)) : Sound sigkill next := by
  obtain ⟨pid, handle, child, used, inCall⟩ := uses
  obtain ⟨isAnswer, step⟩ := Client.answer_eq_some_iff.mp step
  obtain ⟨pid', handle', handleNext, child', handleStep, rfl⟩ := Client.act_eq_some_iff.mp step
  cases child.symm.trans child'
  have later := inCall.step (sound.owned.phase child) isAnswer handleStep
  rw [here]
  exact sound.withHandle child handleStep (fun dropping here => waits dropping here ▸ later)
    (placed pid handleNext used later)

/-- The destructor of the child takes a step. -/
theorem Sound.inDrop (sound : Sound sigkill life) {p : Handle ι Signal → Prop}
    (removed : Removed life p) {action : HandleAction ι Signal}
    (step : life.act sigkill Life.resume .inDrop action = some next) : Sound sigkill next := by
  obtain ⟨pid, handle, _, older, child, log, used, last, _⟩ := removed
  obtain ⟨pid', handle', handleNext, child', handleStep, rfl⟩ := Client.act_eq_some_iff.mp step
  cases child.symm.trans child'
  exact sound.withHandle child handleStep (fun dropping here => nomatch here)
    (placed_inDrop log used last handleNext)

theorem Sound.step (sound : Sound sigkill life) {action : Action ι Signal}
    (step : life.step sigkill action = some next) : Sound sigkill next := by
  have placed := sound.placed
  unfold Life.step at step
  split at step
  case h_1 made here =>
    simp only [Placed, here] at placed
    obtain ⟨child, log⟩ := placed
    cases step
    cases made with
    | false =>
        refine sound.quiet rfl (.inl rfl) ?_
        simp only [Placed]
        exact .inl ⟨child, .inl log⟩
    | true =>
        refine sound.quiet rfl (.inr ⟨.cgroup, rfl, by simp, by simp⟩) ?_
        exact ⟨child, by simp [log]⟩
  case h_2 left allocated here =>
    simp only [Placed, here] at placed
    obtain ⟨child, log⟩ := placed
    cases step
    refine sound.quiet rfl (.inl rfl) ?_
    cases allocated with
    | false => exact .inl ⟨child, log⟩
    | true => cases left <;> exact ⟨child, log⟩
  case h_3 here =>
    simp only [Placed, here] at placed
    cases step
    exact sound.quiet rfl (.inl rfl) (.inl placed)
  case h_4 pid here =>
    simp only [Placed, here] at placed
    obtain ⟨child, log⟩ := placed
    cases step
    constructor
    case owned =>
      refine Client.Owned.spawn ?_ (fun _ _ same => by cases same; rfl) _ pid
      simp [log]
    case known =>
      intro member
      simp [Client.spawn, log] at member
    case placed =>
      refine ⟨pid, _, rfl, ?_, rfl⟩
      rw [Client.spawn, log]
      exact .spawned
  case h_5 creating acquired here =>
    simp only [Placed, here] at placed
    cases step
    refine sound.quiet rfl (.inl rfl) ?_
    cases acquired <;> exact placed
  case h_6 creating here =>
    simp only [Placed, here] at placed
    exact sound.call placed step (by simp) fun pid handle used inCall =>
      placed_inAlive used inCall creating
  case h_7 here =>
    simp only [Placed, here] at placed
    cases step
    exact sound.quiet rfl (.inl rfl) placed
  case h_8 here =>
    simp only [Placed, here] at placed
    cases step
    exact sound.quiet rfl (.inl rfl) placed
  case h_9 here =>
    simp only [Placed, here] at placed
    cases step
    exact sound.quiet rfl (.inl rfl) placed
  case h_10 dropping here =>
    simp only [Placed, here] at placed
    exact sound.call placed step (by simp) fun pid handle used inCall =>
      placed_inKill used inCall dropping
  case h_11 dropping here =>
    simp only [Placed, here] at placed
    exact sound.call placed step (by simp) fun pid handle used inCall =>
      placed_inWait used inCall dropping
  case h_12 removed here =>
    simp only [Placed, here] at placed
    cases step
    refine sound.quiet rfl (.inr ⟨.removal removed, rfl, by simp, by simp⟩) ?_
    rcases placed with ⟨child, log⟩ | ⟨⟨pid, handle, child, used, idle⟩, last⟩
    · simp only [Placed, child, Option.isSome_none, Bool.false_eq_true, if_false]
      exact .inl ⟨trivial, .inr ⟨removed, by simp [log]⟩⟩
    · simp only [Placed, child, Option.isSome_some, if_true]
      exact ⟨pid, handle, removed, life.log, by simp, rfl, used, last, idle⟩
  case h_13 here =>
    simp only [Placed, here] at placed
    exact sound.inDrop placed step
  case h_14 creating answer here =>
    simp only [Placed, here] at placed
    exact sound.answer here placed step (by simp) fun pid handle used inCall =>
      placed_inAlive used inCall creating
  case h_15 dropping answer here =>
    simp only [Placed, here] at placed
    exact sound.answer here placed step (by simp) fun pid handle used inCall =>
      placed_inKill used inCall dropping
  case h_16 dropping answer here =>
    simp only [Placed, here] at placed
    exact sound.answer here placed step (by simp) fun pid handle used inCall =>
      placed_inWait used inCall dropping
  case h_17 answer here =>
    simp only [Placed, here] at placed
    obtain ⟨_, step⟩ := Client.answer_eq_some_iff.mp step
    rw [here] at step
    exact sound.inDrop placed step
  case h_18 => contradiction

theorem Sound.new : Sound sigkill (Life.new : Life ι Signal) where
  owned := .init _
  known member := by cases member
  placed := ⟨rfl, rfl⟩

end Schtest.Process.Lifecycle
