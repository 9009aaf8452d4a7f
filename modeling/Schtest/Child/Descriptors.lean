import Mathlib.Data.List.Perm.Basic
import Schtest.Collections.Claims
import Schtest.Transition.Core

/-!
# The descriptors of a family of processes

`Child::run` makes a pipe and clones.  The clone has a copy of every descriptor, and
closes the read end of the new pipe; its parent closes the write end.  A child whose
function has returned `Ok` closes its copy of the number of the write end, and keeps
the notification as it is.  All ends are closed where a process ends, or executes a
command.
-/

namespace Schtest.Child.Descriptors

open Schtest.Collections Schtest.Transition

/-! ## Notification pipes -/

/-- The two ends of a pipe. -/
inductive Side
  | read
  | write
  deriving DecidableEq, Repr

/-- An end of a pipe. -/
structure End where
  pipe : Nat
  side : Side
  deriving DecidableEq, Repr

/-- The ends that the descriptors of a process are open on. -/
abbrev Table := Nat → Option End

/-- `close(fd)`. -/
def close (fd : Nat) (table : Table) : Table :=
  Function.update table fd none

/-- A `NotificationFd`, with the pipe that it was made for. -/
structure NotificationFd where
  pipe : Nat
  readFd : Option Nat
  writeFd : Option Nat
  deriving DecidableEq, Repr

namespace NotificationFd

/-- `close_write`: `take` leaves no descriptor. -/
def closeWrite (notification : NotificationFd) (table : Table) : NotificationFd × Table :=
  match notification.writeFd with
  | some fd => ({ notification with writeFd := none }, close fd table)
  | none => (notification, table)

/-- `close_read`. -/
def closeRead (notification : NotificationFd) (table : Table) : NotificationFd × Table :=
  match notification.readFd with
  | some fd => ({ notification with readFd := none }, close fd table)
  | none => (notification, table)

/-- The destructor. -/
def drop (notification : NotificationFd) (table : Table) : Table :=
  let closed := notification.closeWrite table
  (closed.1.closeRead closed.2).2

/-- The descriptors it takes for its own. -/
def claims (notification : NotificationFd) : List (Nat × End) :=
  (notification.readFd.toList.map fun fd => (fd, ⟨notification.pipe, .read⟩)) ++
    notification.writeFd.toList.map fun fd => (fd, ⟨notification.pipe, .write⟩)

end NotificationFd

/-! ## Processes -/

/-- Where a process is. -/
inductive Stage
  /-- It runs its function, or `main`. -/
  | body
  /-- In `Child::run`: the pipe is made. -/
  | made (notification : NotificationFd)
  /-- The child is cloned. -/
  | cloned (notification : NotificationFd) (child : Nat)
  /-- It is a new child, in `Child::run`. -/
  | entered
  /-- Its function has returned `Ok`, and it has closed `write_fd`. -/
  | closed
  /-- It has exited, or executed a command. -/
  | ended
  deriving DecidableEq, Repr

/-- A process, with the processes it has cloned. -/
structure Proc where
  creator : Option Nat
  stage : Stage
  /-- What `Child::run` left it for its result. -/
  own : Option NotificationFd
  /-- The children that it has handles of. -/
  handles : List (Nat × NotificationFd)
  table : Table
  /-- The table that it was cloned with. -/
  inherited : Table

/-- All processes, by number, and the child that each pipe was made for, where there
is one. -/
structure Procs where
  procs : List Proc
  pipes : List (Option Nat)

/-- What a process does. -/
inductive Action
  /-- `NotificationFd::new` finds these descriptors free. -/
  | pipe (readFd writeFd : Nat)
  /-- It fails, or `clone` does. -/
  | clone (cloned : Bool)
  /-- The next statement of `Child::run`. -/
  | proceed
  /-- A handle is dropped, once its child has been waited for. -/
  | drop (index : Nat)
  /-- Its function returns `Ok`: `close(write_fd)`. -/
  | returnOk
  | execvp
  /-- By itself, after an error was written, or by a signal. -/
  | exit
  deriving DecidableEq, Repr

namespace Proc

/-- `NotificationFd::new`. -/
def makePipe (proc : Proc) (pipe readFd writeFd : Nat) : Option Proc :=
  if proc.stage = .body ∧ readFd ≠ writeFd ∧ proc.table readFd = none ∧
      proc.table writeFd = none then
    some { proc with
      stage := .made ⟨pipe, some readFd, some writeFd⟩
      table := Function.update (Function.update proc.table writeFd (some ⟨pipe, .write⟩))
        readFd (some ⟨pipe, .read⟩) }
  else none

/-- The child that is cloned from a process. -/
def child (proc : Proc) (pid : Nat) (notification : NotificationFd) : Proc where
  creator := some pid
  stage := .entered
  own := some notification
  handles := []
  table := proc.table
  inherited := proc.table

/-- It has no descriptors any more. -/
def ended (proc : Proc) : Proc :=
  { proc with stage := .ended, own := none, handles := [], table := fun _ => none }

/-- A step that concerns no other process. -/
def step (proc : Proc) : Action → Option Proc
  | .clone false =>
      match proc.stage with
      | .made notification =>
          some { proc with stage := .body, table := notification.drop proc.table }
      | _ => none
  | .proceed =>
      match proc.stage, proc.own with
      | .cloned notification child, _ =>
          let closed := notification.closeWrite proc.table
          some { proc with
            stage := .body, handles := (child, closed.1) :: proc.handles, table := closed.2 }
      | .entered, some own =>
          let closed := own.closeRead proc.table
          some { proc with stage := .body, own := some closed.1, table := closed.2 }
      | _, _ => none
  | .drop index =>
      match proc.stage, proc.handles[index]? with
      | .body, some (_, notification) =>
          some { proc with
            handles := proc.handles.eraseIdx index, table := notification.drop proc.table }
      | _, _ => none
  | .returnOk =>
      match proc.stage, proc.own, proc.handles with
      | .body, some own, [] =>
          -- `write_fd` is a copy: the notification keeps the number, and is never dropped
          own.writeFd.map fun writeFd =>
            { proc with stage := .closed, table := close writeFd proc.table }
      | _, _, _ => none
  | .execvp => if proc.stage = .body then some proc.ended else none
  | .exit => some proc.ended
  | _ => none

end Proc

/-- One step of a process. -/
def step (state : Procs) (pid : Nat) (action : Action) : Option Procs :=
  state.procs[pid]?.bind fun proc =>
    match action, proc.stage with
    | .pipe readFd writeFd, _ =>
        (proc.makePipe state.pipes.length readFd writeFd).map fun next =>
          { procs := state.procs.set pid next, pipes := state.pipes ++ [none] }
    | .clone true, .made notification =>
        let child := state.procs.length
        some {
          procs := state.procs.set pid { proc with stage := .cloned notification child } ++
            [proc.child pid notification]
          pipes := state.pipes.set notification.pipe (some child) }
    | action, _ =>
        (proc.step action).map fun next => { state with procs := state.procs.set pid next }

/-- The program, without descriptors. -/
def main : Proc where
  creator := none
  stage := .body
  own := none
  handles := []
  table := fun _ => none
  inherited := fun _ => none

/-- All runs of the program and the processes that descend from it. -/
def system : System Procs (Nat × Action) where
  init state := state = ⟨[main], []⟩
  step state move := step state move.1 move.2

/-! ## What a process holds -/

/-- The notification that `Child::run` works with. -/
def Stage.notifications : Stage → List NotificationFd
  | .made notification => [notification]
  | .cloned notification _ => [notification]
  | _ => []

/-- The notifications of a process. -/
def Proc.notifications (proc : Proc) : List NotificationFd :=
  proc.stage.notifications ++ proc.own.toList ++ proc.handles.map Prod.snd

/-- The notification for its result: where `write_fd` is closed, its number is stale. -/
def Proc.usableOwn (proc : Proc) : Option NotificationFd :=
  match proc.stage with
  | .closed => proc.own.map fun own => { own with writeFd := none }
  | _ => proc.own

/-- The notifications, with the descriptors that are not stale. -/
def Proc.usable (proc : Proc) : List NotificationFd :=
  proc.stage.notifications ++ proc.usableOwn.toList ++ proc.handles.map Prod.snd

theorem Proc.usableOwn_eq {proc : Proc} (unclosed : proc.stage ≠ .closed) :
    proc.usableOwn = proc.own := by
  unfold usableOwn
  split
  · contradiction
  · rfl

theorem Proc.usable_eq {proc : Proc} (unclosed : proc.stage ≠ .closed) :
    proc.usable = proc.notifications := by
  rw [usable, usableOwn_eq unclosed, notifications]

/-- The descriptors of the notifications are open on the ends of their pipes, and the
others were inherited. -/
structure Holds (inherited table : Table) (notifications : List NotificationFd) : Prop where
  backed : Backed table (notifications.flatMap NotificationFd.claims)
  covered : ∀ fd pipeEnd, table fd = some pipeEnd →
    (∃ notification ∈ notifications, (fd, pipeEnd) ∈ notification.claims) ∨
      inherited fd = some pipeEnd

variable {inherited table : Table} {notification : NotificationFd}
  {notifications : List NotificationFd}

theorem Holds.perm (holds : Holds inherited table notifications) {others : List NotificationFd}
    (same : List.Perm notifications others) : Holds inherited table others where
  backed := holds.backed.perm (same.flatMap_right _)
  covered fd pipeEnd here := by
    rcases holds.covered fd pipeEnd here with ⟨notification, member, claims⟩ | older
    · exact .inl ⟨notification, same.mem_iff.mp member, claims⟩
    · exact .inr older

theorem Holds.nil (table : Table) : Holds table table [] where
  backed := .nil _
  covered _ _ here := .inr here

theorem NotificationFd.claims_perm_write {fd : Nat} (here : notification.writeFd = some fd) :
    List.Perm notification.claims
      ((fd, ⟨notification.pipe, .write⟩) :: { notification with writeFd := none }.claims) := by
  simp only [claims, here, Option.toList_some, Option.toList_none, List.map_cons, List.map_nil,
    List.append_nil]
  exact List.perm_append_singleton _ _

theorem NotificationFd.claims_perm_read {fd : Nat} (here : notification.readFd = some fd) :
    List.Perm notification.claims
      ((fd, ⟨notification.pipe, .read⟩) :: { notification with readFd := none }.claims) := by
  simp only [claims, here, Option.toList_some, Option.toList_none, List.map_cons, List.map_nil,
    List.nil_append, List.singleton_append]
  exact List.Perm.refl _

theorem NotificationFd.pipe_of_claim {claim : Nat × End} (claimed : claim ∈ notification.claims) :
    claim.2.pipe = notification.pipe := by
  rcases List.mem_append.mp claimed with read | write
  · obtain ⟨fd, _, rfl⟩ := List.mem_map.mp read
    rfl
  · obtain ⟨fd, _, rfl⟩ := List.mem_map.mp write
    rfl

/-- A claim of a notification is given up, and its descriptor closed. -/
theorem Holds.release (holds : Holds inherited table (notification :: notifications)) {fd : Nat}
    {pipeEnd : End} {fewer : NotificationFd}
    (claims : List.Perm notification.claims ((fd, pipeEnd) :: fewer.claims)) :
    Holds inherited (close fd table) (fewer :: notifications) where
  backed := by
    have backed : Backed table ((fd, pipeEnd) ::
        (fewer :: notifications).flatMap NotificationFd.claims) := by
      apply holds.backed.perm
      rw [List.flatMap_cons, List.flatMap_cons, ← List.cons_append]
      exact claims.append_right _
    exact backed.release
  covered other otherEnd here := by
    by_cases same : other = fd
    · rw [close, same, Function.update_self] at here
      contradiction
    · rw [close, Function.update_of_ne same] at here
      rcases holds.covered other otherEnd here with ⟨holder, member, claimed⟩ | older
      · left
        rcases List.mem_cons.mp member with rfl | behind
        · refine ⟨fewer, List.mem_cons_self, ?_⟩
          refine (List.mem_cons.mp (claims.mem_iff.mp claimed)).resolve_left fun equal => ?_
          exact same (congrArg Prod.fst equal)
        · exact ⟨holder, List.mem_cons_of_mem _ behind, claimed⟩
      · exact .inr older

theorem Holds.closeWrite (holds : Holds inherited table (notification :: notifications)) :
    Holds inherited (notification.closeWrite table).2
      ((notification.closeWrite table).1 :: notifications) := by
  unfold NotificationFd.closeWrite
  split
  · rename_i fd here
    exact holds.release (NotificationFd.claims_perm_write here)
  · exact holds

theorem Holds.closeRead (holds : Holds inherited table (notification :: notifications)) :
    Holds inherited (notification.closeRead table).2
      ((notification.closeRead table).1 :: notifications) := by
  unfold NotificationFd.closeRead
  split
  · rename_i fd here
    exact holds.release (NotificationFd.claims_perm_read here)
  · exact holds

/-- A notification without claims is forgotten. -/
theorem Holds.forget (holds : Holds inherited table (notification :: notifications))
    (none : notification.claims = []) : Holds inherited table notifications where
  backed := by
    have backed := holds.backed
    rwa [List.flatMap_cons, none, List.nil_append] at backed
  covered fd pipeEnd here := by
    rcases holds.covered fd pipeEnd here with ⟨holder, member, claimed⟩ | older
    · rcases List.mem_cons.mp member with rfl | behind
      · rw [none] at claimed
        cases claimed
      · exact .inl ⟨holder, behind, claimed⟩
    · exact .inr older

@[simp]
theorem NotificationFd.closeWrite_writeFd (notification : NotificationFd) (table : Table) :
    (notification.closeWrite table).1.writeFd = none := by
  unfold closeWrite
  split
  · rfl
  · assumption

@[simp]
theorem NotificationFd.closeWrite_readFd (notification : NotificationFd) (table : Table) :
    (notification.closeWrite table).1.readFd = notification.readFd := by
  unfold closeWrite
  split <;> rfl

@[simp]
theorem NotificationFd.closeWrite_pipe (notification : NotificationFd) (table : Table) :
    (notification.closeWrite table).1.pipe = notification.pipe := by
  unfold closeWrite
  split <;> rfl

@[simp]
theorem NotificationFd.closeRead_readFd (notification : NotificationFd) (table : Table) :
    (notification.closeRead table).1.readFd = none := by
  unfold closeRead
  split
  · rfl
  · assumption

@[simp]
theorem NotificationFd.closeRead_writeFd (notification : NotificationFd) (table : Table) :
    (notification.closeRead table).1.writeFd = notification.writeFd := by
  unfold closeRead
  split <;> rfl

@[simp]
theorem NotificationFd.closeRead_pipe (notification : NotificationFd) (table : Table) :
    (notification.closeRead table).1.pipe = notification.pipe := by
  unfold closeRead
  split <;> rfl

theorem Holds.drop (holds : Holds inherited table (notification :: notifications)) :
    Holds inherited (notification.drop table) notifications :=
  holds.closeWrite.closeRead.forget (by simp [NotificationFd.claims])

/-- `NotificationFd::new`. -/
theorem Holds.make (holds : Holds inherited table notifications) {pipe readFd writeFd : Nat}
    (apart : readFd ≠ writeFd) (readFree : table readFd = none) (writeFree : table writeFd = none)
    (fresh : ∀ notification ∈ notifications, notification.pipe ≠ pipe) :
    Holds inherited
      (Function.update (Function.update table writeFd (some ⟨pipe, .write⟩)) readFd
        (some ⟨pipe, .read⟩))
      (⟨pipe, some readFd, some writeFd⟩ :: notifications) where
  backed := by
    have unclaimed (side : Side) (claim : Nat × End)
        (member : claim ∈ notifications.flatMap NotificationFd.claims) :
        claim.2 ≠ ⟨pipe, side⟩ := by
      obtain ⟨notification, among, claimed⟩ := List.mem_flatMap.mp member
      rintro same
      exact fresh notification among (NotificationFd.pipe_of_claim claimed ▸ same ▸ rfl)
    refine (holds.backed.claim writeFree (unclaimed .write)).claim ?_ ?_
    · rw [Function.update_of_ne apart, readFree]
    · exact List.forall_mem_cons.mpr ⟨by simp, unclaimed .read⟩
  covered fd pipeEnd here := by
    by_cases isRead : fd = readFd
    · rw [isRead, Function.update_self] at here
      cases here
      exact .inl ⟨_, List.mem_cons_self, by simp [NotificationFd.claims, isRead]⟩
    · rw [Function.update_of_ne isRead] at here
      by_cases isWrite : fd = writeFd
      · rw [isWrite, Function.update_self] at here
        cases here
        exact .inl ⟨_, List.mem_cons_self, by simp [NotificationFd.claims, isWrite]⟩
      · rw [Function.update_of_ne isWrite] at here
        rcases holds.covered fd pipeEnd here with ⟨holder, member, claimed⟩ | older
        · exact .inl ⟨holder, List.mem_cons_of_mem _ member, claimed⟩
        · exact .inr older

/-! ## One process -/

/-- What holds of a process by itself. -/
structure Proc.Sound (proc : Proc) : Prop where
  holds : Holds proc.inherited proc.table proc.usable
  /-- In `Child::run`, both ends are there. -/
  running : ∀ notification ∈ proc.stage.notifications,
    notification.readFd.isSome ∧ notification.writeFd.isSome
  /-- A child can write its result. -/
  own : ∀ notification ∈ proc.own, notification.writeFd.isSome
  /-- A handle has the read end only. -/
  handles : ∀ entry ∈ proc.handles, entry.2.readFd.isSome ∧ entry.2.writeFd = none
  ended : proc.stage = .ended → ∀ fd, proc.table fd = none

variable {proc next : Proc}

theorem Proc.Sound.main : main.Sound where
  holds := .nil _
  running := by simp [Descriptors.main, Stage.notifications]
  own := by simp [Descriptors.main]
  handles := by simp [Descriptors.main]
  ended := by simp [Descriptors.main]

theorem Proc.Sound.ended_ (proc : Proc) : proc.ended.Sound where
  holds := ⟨.nil _, fun _ _ here => by cases here⟩
  running := by simp [Proc.ended, Stage.notifications]
  own := by simp [Proc.ended]
  handles := by simp [Proc.ended]
  ended _ _ := rfl

theorem Proc.Sound.makePipe (sound : proc.Sound) {pipe readFd writeFd : Nat}
    (fresh : ∀ notification ∈ proc.notifications, notification.pipe ≠ pipe)
    (step : proc.makePipe pipe readFd writeFd = some next) : next.Sound := by
  unfold Proc.makePipe at step
  split at step
  · rename_i free
    obtain ⟨inBody, apart, readFree, writeFree⟩ := free
    cases step
    have usable : proc.usable = proc.own.toList ++ proc.handles.map Prod.snd := by
      simp [Proc.usable, Proc.usableOwn, inBody, Stage.notifications]
    have fresh : ∀ notification ∈ proc.usable, notification.pipe ≠ pipe := by
      rwa [Proc.usable_eq (by simp [inBody])]
    constructor
    case holds =>
      have made := sound.holds.make apart readFree writeFree fresh
      rw [usable] at made
      exact made
    case running => simp [Stage.notifications]
    case own => exact sound.own
    case handles => exact sound.handles
    case ended => simp
  · contradiction

/-- A new child has its pipe, and what its parent had. -/
theorem Proc.Sound.child (sound : proc.Sound) {notification : NotificationFd}
    (here : proc.stage = .made notification) (pid : Nat) :
    (proc.child pid notification).Sound := by
  constructor
  case holds =>
    refine ⟨?_, fun _ _ found => .inr found⟩
    refine sound.holds.backed.sublist ?_
    simp only [Proc.child, Proc.usable, Proc.usableOwn, here, Stage.notifications,
      Option.toList_some,
      List.flatMap_append, List.flatMap_cons, List.flatMap_nil, List.append_nil, List.map_nil,
      List.nil_append]
    exact List.sublist_append_of_sublist_left (List.sublist_append_left _ _)
  case running => simp [Proc.child, Stage.notifications]
  case own =>
    have running := sound.running notification (by simp [here, Stage.notifications])
    simpa [Proc.child] using running.2
  case handles => simp [Proc.child]
  case ended => simp [Proc.child]

theorem Proc.Sound.step (sound : proc.Sound) {action : Action}
    (step : proc.step action = some next) : next.Sound := by
  have holds := sound.holds
  unfold Proc.step at step
  split at step
  case h_1 =>
    split at step
    · rename_i notification here
      cases step
      have usable : proc.usable =
          notification :: (proc.own.toList ++ proc.handles.map Prod.snd) := by
        simp [Proc.usable, Proc.usableOwn, here, Stage.notifications]
      constructor
      case holds =>
        rw [usable] at holds
        exact holds.drop
      case running => simp [Stage.notifications]
      case own => exact sound.own
      case handles => exact sound.handles
      case ended => simp
    · contradiction
  case h_2 =>
    split at step
    · rename_i notification child here
      cases step
      have usable : proc.usable =
          notification :: (proc.own.toList ++ proc.handles.map Prod.snd) := by
        simp [Proc.usable, Proc.usableOwn, here, Stage.notifications]
      have running := sound.running notification (by simp [here, Stage.notifications])
      constructor
      case holds =>
        rw [usable] at holds
        refine holds.closeWrite.perm ?_
        exact List.perm_middle.symm
      case running => simp [Stage.notifications]
      case own => exact sound.own
      case handles =>
        refine List.forall_mem_cons.mpr ⟨?_, sound.handles⟩
        simpa using running.1
      case ended => simp
    · rename_i own here mine
      cases step
      have usable : proc.usable = own :: proc.handles.map Prod.snd := by
        simp [Proc.usable, Proc.usableOwn, here, mine, Stage.notifications]
      constructor
      case holds =>
        rw [usable] at holds
        exact holds.closeRead
      case running => simp [Stage.notifications]
      case own => simpa using sound.own own mine
      case handles => exact sound.handles
      case ended => simp
    · contradiction
  case h_3 index =>
    split at step
    · rename_i child notification here found
      cases step
      obtain ⟨bound, entry⟩ := List.getElem?_eq_some_iff.mp found
      have split : List.Perm (proc.handles.map Prod.snd)
          (notification :: (proc.handles.eraseIdx index).map Prod.snd) := by
        have whole := (List.getElem_cons_eraseIdx_perm bound).symm
        rw [entry] at whole
        exact whole.map Prod.snd
      have usable : List.Perm proc.usable
          (notification :: (proc.own.toList ++ (proc.handles.eraseIdx index).map Prod.snd)) := by
        simp only [Proc.usable, Proc.usableOwn, here, Stage.notifications, List.nil_append]
        exact (split.append_left _).trans List.perm_middle
      constructor
      case holds =>
        have dropped := (holds.perm usable).drop
        simpa [Proc.usable, Proc.usableOwn, here, Stage.notifications] using dropped
      case running => simp [here, Stage.notifications]
      case own => exact sound.own
      case handles =>
        exact fun entry member => sound.handles entry (List.mem_of_mem_eraseIdx member)
      case ended => simp [here]
    · contradiction
  case h_4 =>
    split at step
    · rename_i own here mine childless
      obtain ⟨writeFd, isWrite, rfl⟩ := Option.map_eq_some_iff.mp step
      have usable : proc.usable = [own] := by
        simp [Proc.usable, Proc.usableOwn, here, mine, childless, Stage.notifications]
      rw [usable] at holds
      constructor
      case holds =>
        have closed := holds.release (NotificationFd.claims_perm_write isWrite)
        simpa [Proc.usable, Proc.usableOwn, mine, childless, Stage.notifications] using closed
      case running => simp [Stage.notifications]
      case own => exact sound.own
      case handles => exact sound.handles
      case ended => simp
    · contradiction
  case h_5 =>
    split at step
    · cases step
      exact Proc.Sound.ended_ proc
    · contradiction
  case h_6 =>
    cases step
    exact Proc.Sound.ended_ proc
  case h_7 => contradiction

end Schtest.Child.Descriptors
