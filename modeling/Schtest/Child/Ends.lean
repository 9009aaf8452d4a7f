import Schtest.Child.Descriptors

/-!
# Who holds the write end of a pipe

Once `Child::run` has returned, the write end of the pipe of a child is only held by
the child and those that descend from it.  Where they have all ended, reading the pipe
comes to its end.
-/

namespace Schtest.Child.Descriptors

open Schtest.Collections Schtest.Transition

/-! ## One process -/

/-- The child that `Child::run` has just cloned, with its pipe. -/
def Stage.children : Stage → List (Nat × Nat)
  | .cloned notification child => [(child, notification.pipe)]
  | _ => []

/-- The children that a process has cloned and not let go of, with their pipes. -/
def Proc.children (proc : Proc) : List (Nat × Nat) :=
  proc.stage.children ++ proc.handles.map fun entry => (entry.1, entry.2.pipe)

/-- The pipes of its notifications. -/
def Proc.pipes (proc : Proc) : List Nat :=
  proc.notifications.map NotificationFd.pipe

/-- What a step of its own leaves a process with. -/
structure Proc.Shrinks (proc next : Proc) : Prop where
  creator : next.creator = proc.creator
  children : ∀ child ∈ next.children, child ∈ proc.children
  pipes : ∀ pipe ∈ next.pipes, pipe ∈ proc.pipes
  unmade : ∀ notification, next.stage ≠ .made notification
  /-- A write end that `Child::run` works with does not outlive the step. -/
  writes : ∀ fd pipe, next.table fd = some ⟨pipe, .write⟩ →
    proc.table fd = some ⟨pipe, .write⟩ ∧
      ∀ notification ∈ proc.stage.notifications, notification.writeFd ≠ some fd

variable {table : Table} {notification : NotificationFd} {fd : Nat} {pipeEnd : End}

theorem of_close {closed : Nat} (here : close closed table fd = some pipeEnd) :
    fd ≠ closed ∧ table fd = some pipeEnd := by
  by_cases same : fd = closed
  · rw [same, close, Function.update_self] at here
    contradiction
  · rw [close, Function.update_of_ne same] at here
    exact ⟨same, here⟩

theorem NotificationFd.of_closeWrite (here : (notification.closeWrite table).2 fd = some pipeEnd) :
    table fd = some pipeEnd ∧ notification.writeFd ≠ some fd := by
  unfold closeWrite at here
  split at here
  · rename_i closed found
    obtain ⟨other, older⟩ := of_close here
    refine ⟨older, fun mine => other ?_⟩
    rw [found] at mine
    exact (Option.some.inj mine).symm
  · rename_i absent
    exact ⟨here, by simp [absent]⟩

theorem NotificationFd.of_closeRead (here : (notification.closeRead table).2 fd = some pipeEnd) :
    table fd = some pipeEnd := by
  unfold closeRead at here
  split at here
  · exact (of_close here).2
  · exact here

theorem NotificationFd.of_drop (here : notification.drop table fd = some pipeEnd) :
    table fd = some pipeEnd ∧ notification.writeFd ≠ some fd :=
  of_closeWrite (of_closeRead here)

variable {proc next : Proc}

theorem Proc.shrinks_ended (proc : Proc) : proc.Shrinks proc.ended where
  creator := rfl
  children _ member := by cases member
  pipes _ member := by cases member
  unmade _ := by simp [Proc.ended]
  writes _ _ here := by cases here

theorem Proc.shrinks_of_step {action : Action} (step : proc.step action = some next) :
    proc.Shrinks next := by
  unfold Proc.step at step
  split at step
  case h_1 =>
    split at step
    · rename_i notification here
      cases step
      constructor
      case creator => rfl
      case children => simp [Proc.children, Stage.children, here]
      case pipes => simp +contextual [Proc.pipes, Proc.notifications, Stage.notifications, here]
      case unmade => simp
      case writes =>
        intro fd pipe found
        simpa [here, Stage.notifications] using NotificationFd.of_drop found
    · contradiction
  case h_2 =>
    split at step
    · rename_i notification child here
      cases step
      constructor
      case creator => rfl
      case children => simp [Proc.children, Stage.children, here]
      case pipes =>
        simp +contextual [Proc.pipes, Proc.notifications, Stage.notifications, here, or_left_comm]
      case unmade => simp
      case writes =>
        intro fd pipe found
        simpa [here, Stage.notifications] using NotificationFd.of_closeWrite found
    · rename_i own here mine
      cases step
      constructor
      case creator => rfl
      case children => simp [Proc.children, Stage.children, here]
      case pipes =>
        simp +contextual [Proc.pipes, Proc.notifications, Stage.notifications, here, mine]
      case unmade => simp
      case writes =>
        intro fd pipe found
        simpa [here, Stage.notifications] using NotificationFd.of_closeRead found
    · contradiction
  case h_3 index =>
    split at step
    · rename_i child notification here found
      cases step
      have fewer : (proc.handles.eraseIdx index).Sublist proc.handles :=
        List.eraseIdx_sublist _ _
      constructor
      case creator => rfl
      case children =>
        intro entry member
        exact ((fewer.map _).append_left _).subset member
      case pipes =>
        intro pipe member
        exact (((fewer.map _).append_left _).map _).subset member
      case unmade => simp [here]
      case writes =>
        intro fd pipe found
        simpa [here, Stage.notifications] using (NotificationFd.of_drop found).1
    · contradiction
  case h_4 =>
    split at step
    · rename_i own here mine childless
      obtain ⟨writeFd, _, rfl⟩ := Option.map_eq_some_iff.mp step
      constructor
      case creator => rfl
      case children => simp [Proc.children, Stage.children, here, childless]
      case pipes => simp [Proc.pipes, Proc.notifications, Stage.notifications, here, mine]
      case unmade => simp
      case writes =>
        intro fd pipe found
        simpa [here, Stage.notifications] using (of_close found).2
    · contradiction
  case h_5 =>
    split at step
    · cases step
      exact proc.shrinks_ended
    · contradiction
  case h_6 =>
    cases step
    exact proc.shrinks_ended
  case h_7 => contradiction

/-! ## All processes -/

/-- A process is a child, or descends from it. -/
inductive Line (procs : List Proc) (child : Nat) : Nat → Prop
  | self : Line procs child child
  | cloned {pid creator : Nat} {proc : Proc} : procs[pid]? = some proc →
      proc.creator = some creator → Line procs child creator → Line procs child pid

/-- No process is lost, and the creators stay. -/
def Extends (procs later : List Proc) : Prop :=
  ∀ (pid : Nat) (proc : Proc), procs[pid]? = some proc →
    ∃ next : Proc, later[pid]? = some next ∧ next.creator = proc.creator

theorem Line.extends {procs later : List Proc} {child pid : Nat} (line : Line procs child pid)
    (extension : Extends procs later) : Line later child pid := by
  induction line with
  | self => exact .self
  | cloned here creator _ ih =>
      obtain ⟨next, found, same⟩ := extension _ _ here
      exact .cloned found (same.trans creator) ih

/-- The child was cloned by the process, and its pipe is the one made for it. -/
def Linked (state : Procs) (pid : Nat) (child : Nat × Nat) : Prop :=
  state.pipes[child.2]? = some (some child.1) ∧
    ∃ proc : Proc, state.procs[child.1]? = some proc ∧ proc.creator = some pid

/-- The process holds the descriptor in `Child::run`, or it descends from the child that
the pipe was made for. -/
def Writes (state : Procs) (pid : Nat) (proc : Proc) (fd pipe : Nat) : Prop :=
  (∃ notification ∈ proc.stage.notifications, notification.pipe = pipe ∧
    notification.writeFd = some fd) ∨
  ∃ child, state.pipes[pipe]? = some (some child) ∧ Line state.procs child pid

/-- What holds of all processes. -/
structure Kept (state : Procs) : Prop where
  sound : ∀ (pid : Nat) (proc : Proc), state.procs[pid]? = some proc → proc.Sound
  /-- Children are younger than their creators. -/
  younger : ∀ (pid creator : Nat) (proc : Proc), state.procs[pid]? = some proc →
    proc.creator = some creator → creator < pid
  old : ∀ (pid : Nat) (proc : Proc), state.procs[pid]? = some proc →
    ∀ pipe ∈ proc.pipes, pipe < state.pipes.length
  /-- A pipe without a child is that of one process. -/
  made : ∀ (pid : Nat) (proc : Proc) (notification : NotificationFd),
    state.procs[pid]? = some proc → proc.stage = .made notification →
      state.pipes[notification.pipe]? = some none ∧
      ∀ (other : Nat) (proc' : Proc) (notification' : NotificationFd),
        state.procs[other]? = some proc' → proc'.stage = .made notification' →
        notification'.pipe = notification.pipe → other = pid
  linked : ∀ (pid : Nat) (proc : Proc), state.procs[pid]? = some proc →
    ∀ child ∈ proc.children, Linked state pid child
  writers : ∀ (pid : Nat) (proc : Proc) (fd pipe : Nat), state.procs[pid]? = some proc →
    proc.table fd = some ⟨pipe, .write⟩ → Writes state pid proc fd pipe

theorem getElem?_set_cases {α : Type} {entries : List α} {index other : Nat} {entry found : α}
    (here : (entries.set index entry)[other]? = some found) :
    (other = index ∧ found = entry) ∨ (other ≠ index ∧ entries[other]? = some found) := by
  by_cases same : other = index
  · subst same
    rw [List.getElem?_set_self'] at here
    obtain ⟨_, _, rfl⟩ := Option.map_eq_some_iff.mp here
    exact .inl ⟨rfl, rfl⟩
  · rw [List.getElem?_set_ne (Ne.symm same)] at here
    exact .inr ⟨same, here⟩

variable {state : Procs} {pid : Nat}

theorem extends_set (here : state.procs[pid]? = some proc) (same : next.creator = proc.creator) :
    Extends state.procs (state.procs.set pid next) := by
  intro other older found
  by_cases there : other = pid
  · subst there
    cases here.symm.trans found
    exact ⟨next, by simp [(List.getElem?_eq_some_iff.mp here).1], same⟩
  · exact ⟨older, by rw [List.getElem?_set_ne (Ne.symm there), found], rfl⟩

/-- Processes and children are only added. -/
structure Grows (state later : Procs) : Prop where
  procs : Extends state.procs later.procs
  pipes : ∀ pipe child : Nat, state.pipes[pipe]? = some (some child) →
    later.pipes[pipe]? = some (some child)

variable {later : Procs}

theorem Linked.grows {child : Nat × Nat} (linked : Linked state pid child)
    (grows : Grows state later) : Linked later pid child := by
  obtain ⟨made, proc, found, creator⟩ := linked
  obtain ⟨next, there, same⟩ := grows.procs _ _ found
  exact ⟨grows.pipes _ _ made, next, there, same.trans creator⟩

theorem Writes.grows {fd pipe : Nat} (writes : Writes state pid proc fd pipe)
    (grows : Grows state later) : Writes later pid proc fd pipe := by
  rcases writes with running | ⟨child, made, line⟩
  · exact .inl running
  · exact .inr ⟨child, grows.pipes _ _ made, line.extends grows.procs⟩

/-- A step of one process alone. -/
theorem Kept.shrink (kept : Kept state) (here : state.procs[pid]? = some proc)
    (sound : next.Sound) (shrinks : proc.Shrinks next) :
    Kept { state with procs := state.procs.set pid next } := by
  have grows : Grows state { state with procs := state.procs.set pid next } :=
    ⟨extends_set here shrinks.creator, fun _ _ made => made⟩
  constructor
  case sound =>
    intro other found there
    rcases getElem?_set_cases there with ⟨rfl, rfl⟩ | ⟨_, there⟩
    · exact sound
    · exact kept.sound other found there
  case younger =>
    intro other creator found there created
    rcases getElem?_set_cases there with ⟨rfl, rfl⟩ | ⟨_, there⟩
    · exact kept.younger other creator proc here (shrinks.creator.symm.trans created)
    · exact kept.younger other creator found there created
  case old =>
    intro other found there pipe member
    rcases getElem?_set_cases there with ⟨rfl, rfl⟩ | ⟨_, there⟩
    · exact kept.old other proc here pipe (shrinks.pipes pipe member)
    · exact kept.old other found there pipe member
  case made =>
    intro other found notification there made
    rcases getElem?_set_cases there with ⟨rfl, rfl⟩ | ⟨_, there⟩
    · exact absurd made (shrinks.unmade notification)
    · obtain ⟨childless, once⟩ := kept.made other found notification there made
      refine ⟨childless, fun another found' notification' there' made' same => ?_⟩
      rcases getElem?_set_cases there' with ⟨rfl, rfl⟩ | ⟨_, there'⟩
      · exact absurd made' (shrinks.unmade notification')
      · exact once another found' notification' there' made' same
  case linked =>
    intro other found there child member
    rcases getElem?_set_cases there with ⟨rfl, rfl⟩ | ⟨_, there⟩
    · exact (kept.linked other proc here child (shrinks.children child member)).grows grows
    · exact (kept.linked other found there child member).grows grows
  case writers =>
    intro other found fd pipe there open_
    rcases getElem?_set_cases there with ⟨rfl, rfl⟩ | ⟨_, there⟩
    · obtain ⟨older, closed⟩ := shrinks.writes fd pipe open_
      rcases (kept.writers other proc fd pipe here older).grows grows with
        ⟨mine, member, _, same⟩ | line
      · exact absurd same (closed mine member)
      · exact .inr line
    · exact (kept.writers other found fd pipe there open_).grows grows

theorem Stage.pipe_mem {proc : Proc} {notification : NotificationFd}
    (member : notification ∈ proc.stage.notifications) : notification.pipe ∈ proc.pipes :=
  List.mem_map_of_mem (List.mem_append_left _ (List.mem_append_left _ member))

/-- What `NotificationFd::new` does to a process. -/
structure Proc.Makes (proc : Proc) (pipe readFd writeFd : Nat) (next : Proc) : Prop where
  inBody : proc.stage = .body
  stage : next.stage = .made ⟨pipe, some readFd, some writeFd⟩
  creator : next.creator = proc.creator
  children : next.children = proc.children
  pipes : next.pipes = pipe :: proc.pipes
  /-- Only one write end is new. -/
  writes : ∀ fd written, next.table fd = some ⟨written, .write⟩ →
    (fd = writeFd ∧ written = pipe) ∨ proc.table fd = some ⟨written, .write⟩

theorem Proc.makes_of_makePipe {pipe readFd writeFd : Nat}
    (step : proc.makePipe pipe readFd writeFd = some next) :
    proc.Makes pipe readFd writeFd next := by
  unfold Proc.makePipe at step
  split at step
  · rename_i free
    obtain ⟨inBody, apart, _, _⟩ := free
    cases step
    constructor
    case inBody => exact inBody
    case stage => rfl
    case creator => rfl
    case children => simp [Proc.children, Stage.children, inBody]
    case pipes => simp [Proc.pipes, Proc.notifications, Stage.notifications, inBody]
    case writes =>
      intro fd written here
      by_cases isRead : fd = readFd
      · simp [isRead] at here
      · by_cases isWrite : fd = writeFd
        · subst isWrite
          simp only [Function.update_of_ne isRead, Function.update_self, Option.some.injEq,
            End.mk.injEq, and_true] at here
          exact .inl ⟨rfl, here.symm⟩
        · simp only [Function.update_of_ne isRead, Function.update_of_ne isWrite] at here
          exact .inr here
  · contradiction

/-- A pipe is made. -/
theorem Kept.pipe (kept : Kept state) (here : state.procs[pid]? = some proc)
    {readFd writeFd : Nat}
    (step : proc.makePipe state.pipes.length readFd writeFd = some next) :
    Kept { procs := state.procs.set pid next, pipes := state.pipes ++ [none] } := by
  have fresh : ∀ notification ∈ proc.notifications, notification.pipe ≠ state.pipes.length :=
    fun notification member =>
      Nat.ne_of_lt (kept.old pid proc here _ (List.mem_map_of_mem member))
  have makes := Proc.makes_of_makePipe step
  have older {pipe : Nat} {child : Option Nat} (made : state.pipes[pipe]? = some child) :
      (state.pipes ++ [none])[pipe]? = some child := by
    rw [List.getElem?_append_left (List.getElem?_eq_some_iff.mp made).1, made]
  have grows : Grows state { procs := state.procs.set pid next, pipes := state.pipes ++ [none] } :=
    ⟨extends_set here makes.creator, fun _ _ made => older made⟩
  have older_ne {other : Nat} {found : Proc} {notification : NotificationFd}
      (there : state.procs[other]? = some found) (made : found.stage = .made notification) :
      notification.pipe ≠ state.pipes.length := by
    apply Nat.ne_of_lt
    exact kept.old other found there _ (Stage.pipe_mem (by simp [made, Stage.notifications]))
  constructor
  case sound =>
    intro other found there
    rcases getElem?_set_cases there with ⟨rfl, rfl⟩ | ⟨_, there⟩
    · exact (kept.sound other proc here).makePipe fresh step
    · exact kept.sound other found there
  case younger =>
    intro other creator found there created
    rcases getElem?_set_cases there with ⟨rfl, rfl⟩ | ⟨_, there⟩
    · exact kept.younger other creator proc here (makes.creator.symm.trans created)
    · exact kept.younger other creator found there created
  case old =>
    intro other found there pipe member
    rw [List.length_append]
    rcases getElem?_set_cases there with ⟨rfl, rfl⟩ | ⟨_, there⟩
    · rw [makes.pipes] at member
      rcases List.mem_cons.mp member with rfl | member
      · exact Nat.lt_succ_self _
      · exact Nat.lt_succ_of_lt (kept.old other proc here pipe member)
    · exact Nat.lt_succ_of_lt (kept.old other found there pipe member)
  case made =>
    intro other found notification there made
    rcases getElem?_set_cases there with ⟨rfl, rfl⟩ | ⟨_, there⟩
    · cases makes.stage.symm.trans made
      refine ⟨by simp, fun another found' notification' there' made' same => ?_⟩
      rcases getElem?_set_cases there' with ⟨rfl, rfl⟩ | ⟨_, there'⟩
      · rfl
      · exact absurd same (older_ne there' made')
    · obtain ⟨childless, once⟩ := kept.made other found notification there made
      have differs := older_ne there made
      refine ⟨older childless, fun another found' notification' there' made' same => ?_⟩
      rcases getElem?_set_cases there' with ⟨rfl, rfl⟩ | ⟨_, there'⟩
      · cases makes.stage.symm.trans made'
        exact absurd same.symm differs
      · exact once another found' notification' there' made' same
  case linked =>
    intro other found there child member
    rcases getElem?_set_cases there with ⟨rfl, rfl⟩ | ⟨_, there⟩
    · rw [makes.children] at member
      exact (kept.linked other proc here child member).grows grows
    · exact (kept.linked other found there child member).grows grows
  case writers =>
    intro other found fd pipe there open_
    rcases getElem?_set_cases there with ⟨rfl, rfl⟩ | ⟨_, there⟩
    · rcases makes.writes fd pipe open_ with ⟨rfl, rfl⟩ | open_
      · exact .inl ⟨_, by rw [makes.stage]; exact List.mem_singleton_self _, rfl, rfl⟩
      · rcases (kept.writers other proc fd pipe here open_).grows grows with running | line
        · simp [makes.inBody, Stage.notifications] at running
        · exact .inr line
    · exact (kept.writers other found fd pipe there open_).grows grows

/-- The parent after the clone. -/
def Proc.cloning (proc : Proc) (notification : NotificationFd) (child : Nat) : Proc :=
  { proc with stage := .cloned notification child }

theorem Proc.Sound.cloning (sound : proc.Sound) {notification : NotificationFd}
    (made : proc.stage = .made notification) (child : Nat) :
    (proc.cloning notification child).Sound where
  holds := by
    have holds := sound.holds
    simp only [Proc.usable, Proc.usableOwn, made, Stage.notifications] at holds
    exact holds
  running := by
    have running := sound.running
    simp only [made, Stage.notifications] at running
    exact running
  own := sound.own
  handles := sound.handles
  ended := by simp [Proc.cloning]

/-- The processes after the clone. -/
def Procs.cloned (state : Procs) (pid : Nat) (proc : Proc) (notification : NotificationFd) :
    Procs where
  procs := state.procs.set pid (proc.cloning notification state.procs.length) ++
    [proc.child pid notification]
  pipes := state.pipes.set notification.pipe (some state.procs.length)

theorem Procs.cloned_cases {notification : NotificationFd} {other : Nat} {found : Proc}
    (there : (state.cloned pid proc notification).procs[other]? = some found) :
    (other = pid ∧ found = proc.cloning notification state.procs.length) ∨
      (other ≠ pid ∧ state.procs[other]? = some found) ∨
      (other = state.procs.length ∧ found = proc.child pid notification) := by
  rw [Procs.cloned, List.getElem?_append, List.length_set] at there
  split at there
  · rcases getElem?_set_cases there with parent | elsewhere
    · exact .inl parent
    · exact .inr (.inl elsewhere)
  · rename_i beyond
    rw [List.getElem?_singleton] at there
    split at there
    · rename_i first
      exact .inr (.inr ⟨by omega, (Option.some.inj there).symm⟩)
    · contradiction

theorem Procs.cloned_grows (here : state.procs[pid]? = some proc) {notification : NotificationFd}
    (childless : state.pipes[notification.pipe]? = some none) :
    Grows state (state.cloned pid proc notification) where
  procs other older found := by
    obtain ⟨next, there, creator⟩ := extends_set here
      (rfl : (proc.cloning notification state.procs.length).creator = _) other older found
    refine ⟨next, ?_, creator⟩
    rw [Procs.cloned, List.getElem?_append_left (List.getElem?_eq_some_iff.mp there).1, there]
  pipes pipe child made := by
    have other : notification.pipe ≠ pipe := by
      rintro rfl
      cases childless.symm.trans made
    rw [Procs.cloned, List.getElem?_set_ne other, made]

/-- A child is cloned. -/
theorem Kept.clone (kept : Kept state) (here : state.procs[pid]? = some proc)
    {notification : NotificationFd} (made : proc.stage = .made notification) :
    Kept (state.cloned pid proc notification) := by
  have sound := kept.sound pid proc here
  obtain ⟨childless, alone⟩ := kept.made pid proc notification here made
  have grows := Procs.cloned_grows here childless
  have mine : notification.pipe ∈ proc.pipes :=
    Stage.pipe_mem (by simp [made, Stage.notifications])
  have born : (state.cloned pid proc notification).procs[state.procs.length]? =
      some (proc.child pid notification) := by
    simp [Procs.cloned]
  have known : (state.cloned pid proc notification).pipes[notification.pipe]? =
      some (some state.procs.length) := by
    simp [Procs.cloned, (List.getElem?_eq_some_iff.mp childless).1]
  constructor
  case sound =>
    intro other found there
    rcases Procs.cloned_cases there with ⟨rfl, rfl⟩ | ⟨_, there⟩ | ⟨rfl, rfl⟩
    · exact sound.cloning made _
    · exact kept.sound other found there
    · exact sound.child made pid
  case younger =>
    intro other creator found there created
    rcases Procs.cloned_cases there with ⟨rfl, rfl⟩ | ⟨_, there⟩ | ⟨rfl, rfl⟩
    · exact kept.younger other creator proc here created
    · exact kept.younger other creator found there created
    · cases created
      exact (List.getElem?_eq_some_iff.mp here).1
  case old =>
    intro other found there pipe member
    rw [Procs.cloned, List.length_set]
    rcases Procs.cloned_cases there with ⟨rfl, rfl⟩ | ⟨_, there⟩ | ⟨rfl, rfl⟩
    · refine kept.old other proc here pipe ?_
      simpa [Proc.pipes, Proc.notifications, made, Stage.notifications, Proc.cloning] using member
    · exact kept.old other found there pipe member
    · have same : pipe = notification.pipe := by
        simpa [Proc.pipes, Proc.notifications, Stage.notifications, Proc.child] using member
      exact same ▸ kept.old pid proc here _ mine
  case made =>
    intro other found notification' there made'
    rcases Procs.cloned_cases there with ⟨rfl, rfl⟩ | ⟨elsewhere, there⟩ | ⟨rfl, rfl⟩
    · cases made'
    · obtain ⟨childless', alone'⟩ := kept.made other found notification' there made'
      have differs : notification'.pipe ≠ notification.pipe :=
        fun same => elsewhere (alone other found notification' there made' same)
      refine ⟨?_, fun another found' notification'' there' made'' same => ?_⟩
      · rw [Procs.cloned, List.getElem?_set_ne differs.symm, childless']
      · rcases Procs.cloned_cases there' with ⟨rfl, rfl⟩ | ⟨_, there'⟩ | ⟨rfl, rfl⟩
        · cases made''
        · exact alone' another found' notification'' there' made'' same
        · cases made''
    · cases made'
  case linked =>
    intro other found there child member
    rcases Procs.cloned_cases there with ⟨rfl, rfl⟩ | ⟨_, there⟩ | ⟨rfl, rfl⟩
    · rcases List.mem_cons.mp member with rfl | older
      · exact ⟨known, _, born, rfl⟩
      · refine (kept.linked other proc here child ?_).grows grows
        simp only [Proc.children, Stage.children, made, List.nil_append]
        exact older
    · exact (kept.linked other found there child member).grows grows
    · simp [Proc.children, Stage.children, Proc.child] at member
  case writers =>
    intro other found fd pipe there open_
    rcases Procs.cloned_cases there with ⟨rfl, rfl⟩ | ⟨_, there⟩ | ⟨rfl, rfl⟩
    · rcases (kept.writers other proc fd pipe here open_).grows grows with running | line
      · left
        simp only [made, Stage.notifications] at running
        exact running
      · exact .inr line
    · exact (kept.writers other found fd pipe there open_).grows grows
    · right
      rcases (kept.writers pid proc fd pipe here open_).grows grows with
        ⟨running, among, rfl, _⟩ | ⟨child, known', line⟩
      · simp only [made, Stage.notifications, List.mem_singleton] at among
        subst among
        exact ⟨_, known, .self⟩
      · exact ⟨child, known', .cloned born rfl line⟩

theorem Kept.step (kept : Kept state) {action : Action}
    (step : Descriptors.step state pid action = some later) : Kept later := by
  obtain ⟨proc, here, moved⟩ := Option.bind_eq_some_iff.mp step
  split at moved
  case h_1 =>
    obtain ⟨next, made, rfl⟩ := Option.map_eq_some_iff.mp moved
    exact kept.pipe here made
  case h_2 made =>
    cases moved
    exact kept.clone here made
  case h_3 =>
    obtain ⟨next, procStep, rfl⟩ := Option.map_eq_some_iff.mp moved
    exact kept.shrink here ((kept.sound pid proc here).step procStep)
      (Proc.shrinks_of_step procStep)

theorem kept_of_reachable (reachable : system.Reachable state) : Kept state := by
  apply reachable.invariant
  case base =>
    rintro _ rfl
    have only {pid : Nat} {proc : Proc} (here : [main][pid]? = some proc) : proc = main := by
      rw [List.getElem?_singleton] at here
      split at here
      · exact (Option.some.inj here).symm
      · contradiction
    constructor
    case sound =>
      intro pid proc here
      exact only here ▸ Proc.Sound.main
    case younger =>
      intro pid creator proc here created
      rw [only here] at created
      cases created
    case old =>
      intro pid proc here pipe member
      rw [only here] at member
      cases member
    case made =>
      intro pid proc notification here made
      rw [only here] at made
      cases made
    case linked =>
      intro pid proc here child member
      rw [only here] at member
      cases member
    case writers =>
      intro pid proc fd pipe here open_
      rw [only here] at open_
      cases open_
  case preserve =>
    rintro state ⟨pid, action⟩ next _ step kept
    exact kept.step step

/-! ## The ends of the pipes -/

/-- What processes keep to with the ends of their pipes. -/
structure KeepsEnds (state : Procs) : Prop where
  /-- Until a child closes `write_fd`, every descriptor of a notification is open on the
  end that it was made for, so that no other is ever read, written or closed in its
  place. -/
  own : ∀ (pid : Nat) (proc : Proc), state.procs[pid]? = some proc → proc.stage ≠ .closed →
    ∀ notification ∈ proc.notifications, ∀ claim ∈ notification.claims,
      proc.table claim.1 = some claim.2
  /-- A child that has closed `write_fd` keeps its number, and does nothing but exit. -/
  stale : ∀ (pid : Nat) (proc : Proc) (action : Action) (later : Procs),
    state.procs[pid]? = some proc → proc.stage = .closed →
      step state pid action = some later → action = .exit
  /-- With a handle, the pipe can be read. -/
  readable : ∀ (pid : Nat) (proc : Proc), state.procs[pid]? = some proc →
    ∀ entry ∈ proc.handles, ∃ fd, entry.2.readFd = some fd ∧
      proc.table fd = some ⟨entry.2.pipe, .read⟩
  /-- A process lets go of all ends that it did not inherit. -/
  leakFree : ∀ (pid : Nat) (proc : Proc) (fd : Nat) (pipeEnd : End),
    state.procs[pid]? = some proc → proc.notifications = [] → proc.table fd = some pipeEnd →
      proc.inherited fd = some pipeEnd
  /-- The write end of the pipe of a child is only held by the child and those that
  descend from it, as long as they run: not by its creator, nor by its siblings. -/
  writers : ∀ (pid : Nat) (proc : Proc), state.procs[pid]? = some proc →
    ∀ entry ∈ proc.handles, ∀ (other : Nat) (holder : Proc) (fd : Nat),
      state.procs[other]? = some holder → holder.table fd = some ⟨entry.2.pipe, .write⟩ →
        (Line state.procs entry.1 other ∧ pid < other) ∧ holder.stage ≠ .ended

theorem Kept.le_of_line (kept : Kept state) {child : Nat} (line : Line state.procs child pid) :
    child ≤ pid := by
  induction line with
  | self => exact Nat.le_refl child
  | cloned here created _ ih =>
      exact Nat.le_of_lt (Nat.lt_of_le_of_lt ih (kept.younger _ _ _ here created))

/-- The pipe of a handle is not that of a call of `Child::run` in progress. -/
theorem Proc.Sound.apart (sound : proc.Sound) {notification : NotificationFd}
    (running : notification ∈ proc.stage.notifications) {entry : Nat × NotificationFd}
    (held : entry ∈ proc.handles) : notification.pipe ≠ entry.2.pipe := by
  intro same
  obtain ⟨fd, here⟩ := Option.isSome_iff_exists.mp (sound.running notification running).1
  obtain ⟨fd', there⟩ := Option.isSome_iff_exists.mp (sound.handles entry held).1
  have distinct := sound.holds.backed.distinct
  simp only [Proc.usable, List.append_assoc, List.flatMap_append,
    List.map_append] at distinct
  have disjoint := (List.nodup_append.mp distinct).2.2
  refine disjoint ⟨notification.pipe, .read⟩ ?_ ⟨entry.2.pipe, .read⟩ ?_ (by rw [same])
  · refine List.mem_map.mpr ⟨(fd, ⟨notification.pipe, .read⟩), ?_, rfl⟩
    exact List.mem_flatMap.mpr ⟨notification, running, by simp [NotificationFd.claims, here]⟩
  · refine List.mem_append_right _ (List.mem_map.mpr ⟨(fd', ⟨entry.2.pipe, .read⟩), ?_, rfl⟩)
    exact List.mem_flatMap.mpr ⟨entry.2, List.mem_map_of_mem held,
      by simp [NotificationFd.claims, there]⟩

/-- The write end of the pipe of a child is held in its line. -/
theorem Kept.line (kept : Kept state) (here : state.procs[pid]? = some proc)
    {entry : Nat × NotificationFd} (held : entry ∈ proc.handles) {other : Nat} {holder : Proc}
    (there : state.procs[other]? = some holder) {fd : Nat}
    (open_ : holder.table fd = some ⟨entry.2.pipe, .write⟩) :
    Line state.procs entry.1 other ∧ pid < other := by
  have among : (entry.1, entry.2.pipe) ∈ proc.children :=
    List.mem_append_right _ (List.mem_map_of_mem held)
  obtain ⟨known, born, found, creator⟩ := kept.linked pid proc here _ among
  rcases kept.writers other holder fd _ there open_ with
    ⟨notification, running, same, _⟩ | ⟨child, known', line⟩
  · exfalso
    cases atStage : holder.stage with
    | made notification' =>
        have childless := (kept.made other holder notification' there atStage).1
        simp only [atStage, Stage.notifications, List.mem_singleton] at running
        subst running
        rw [same, known] at childless
        cases childless
    | cloned notification' child =>
        simp only [atStage, Stage.notifications, List.mem_singleton] at running
        subst running
        obtain ⟨known', born', found', creator'⟩ := kept.linked other holder there
          (child, notification.pipe) (by simp [Proc.children, Stage.children, atStage])
        rw [same] at known'
        cases known.symm.trans known'
        cases found.symm.trans found'
        cases creator.symm.trans creator'
        cases here.symm.trans there
        exact (kept.sound pid proc here).apart
          (by simp [atStage, Stage.notifications]) held same
    | body => simp [atStage, Stage.notifications] at running
    | entered => simp [atStage, Stage.notifications] at running
    | closed => simp [atStage, Stage.notifications] at running
    | ended => simp [atStage, Stage.notifications] at running
  · cases known.symm.trans known'
    exact ⟨line, Nat.lt_of_lt_of_le (kept.younger _ _ _ found creator) (kept.le_of_line line)⟩

theorem Proc.eq_exit_of_closed {action : Action} (here : state.procs[pid]? = some proc)
    (closed : proc.stage = .closed) (step : Descriptors.step state pid action = some later) :
    action = .exit := by
  rw [Descriptors.step, here, Option.bind_some, closed] at step
  cases action with
  | exit => rfl
  | pipe readFd writeFd => simp [Proc.makePipe, closed] at step
  | clone cloned => cases cloned <;> simp [Proc.step, closed] at step
  | proceed => simp [Proc.step, closed] at step
  | drop index => simp [Proc.step, closed] at step
  | returnOk => simp [Proc.step, closed] at step
  | execvp => simp [Proc.step, closed] at step

theorem Proc.usable_of_notifications (none : proc.notifications = []) : proc.usable = [] := by
  unfold Proc.notifications at none
  simp only [List.append_eq_nil_iff, Option.toList_eq_nil_iff] at none
  obtain ⟨⟨stage, own⟩, handles⟩ := none
  rw [Proc.usable, Proc.usableOwn, stage, handles]
  split <;> simp [own]

theorem keeps_ends (state : Procs) (reachable : system.Reachable state) : KeepsEnds state := by
  have kept := kept_of_reachable reachable
  constructor
  case own =>
    intro pid proc here unclosed notification member claim claimed
    rw [← Proc.usable_eq unclosed] at member
    exact (kept.sound pid proc here).holds.backed.met claim
      (List.mem_flatMap.mpr ⟨notification, member, claimed⟩)
  case stale =>
    intro pid proc action later here closed step
    exact Proc.eq_exit_of_closed here closed step
  case readable =>
    intro pid proc here entry member
    have sound := kept.sound pid proc here
    obtain ⟨fd, found⟩ := Option.isSome_iff_exists.mp (sound.handles entry member).1
    refine ⟨fd, found, sound.holds.backed.met (fd, ⟨entry.2.pipe, .read⟩) ?_⟩
    refine List.mem_flatMap.mpr ⟨entry.2, ?_, ?_⟩
    · exact List.mem_append_right _ (List.mem_map_of_mem member)
    · simp [NotificationFd.claims, found]
  case leakFree =>
    intro pid proc fd pipeEnd here none open_
    have covered := (kept.sound pid proc here).holds.covered fd pipeEnd open_
    rw [Proc.usable_of_notifications none] at covered
    simpa using covered
  case writers =>
    intro pid proc here entry member other holder fd there open_
    refine ⟨kept.line here member there open_, fun ended => ?_⟩
    rw [(kept.sound other holder there).ended ended fd] at open_
    contradiction

/-- The program spawns a command, whose process is cloned from the child; a second child
is cloned meanwhile, and its function returns. -/
def spawned : List (Nat × Action) :=
  [(0, .pipe 3 4), (0, .clone true), (0, .proceed), (1, .proceed), (1, .pipe 3 5),
    (1, .clone true), (2, .proceed), (0, .pipe 4 5), (1, .proceed), (0, .clone true),
    (0, .proceed), (3, .proceed), (2, .execvp), (3, .returnOk)]

/-- The stages of the four processes, and the children that the pipes were made for. -/
def Ran (state : Procs) : Prop :=
  state.procs.map Proc.stage = [.body, .body, .ended, .closed] ∧
    state.pipes = [some 1, some 2, some 3]

instance : DecidablePred Ran :=
  fun _ => inferInstanceAs (Decidable (_ ∧ _))

theorem keeps_ends_spawned : ∃ state, Ran state ∧ KeepsEnds state := by
  have initial : system.init ⟨[main], []⟩ := rfl
  obtain ⟨state, reachable, ended⟩ := System.exists_reachable_of_exec spawned
    (fun state : Procs => decide (Ran state)) initial (by decide)
  exact ⟨state, of_decide_eq_true ended, keeps_ends state reachable⟩

end Schtest.Child.Descriptors
