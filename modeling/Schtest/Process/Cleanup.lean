import Schtest.Process.Lifecycle

/-!
# What a context leaves behind

A `Context` owns its processes and drops them in the order in which they were added.
At the end `remove_dir_all` was called once for every cgroup, and the end of every
child has been reported.  A cgroup that could not be removed is left behind.
-/

namespace Schtest.Process.Lifecycle

open Schtest.Transition Schtest.Child

universe u v

variable {ι : Type u} {Signal : Type v}

/-! ## A context -/

/-- Where the owner of the context is. -/
inductive ContextPc
  /-- The function that owns the context runs. -/
  | body
  /-- Its processes are dropped, this one at present. -/
  | dropping (index : Nat)
  | returned
  deriving DecidableEq, Repr

/-- The processes in the order in which they were created. -/
structure Owner (ι : Type u) (Signal : Type v) where
  pc : ContextPc
  lives : List (Life ι Signal)

/-- What the owner of the context does. -/
inductive OwnerAction (ι : Type u) (Signal : Type v)
  | create
  | life (index : Nat) (action : Action ι Signal)
  /-- The function returns, after an error or not. -/
  | leave
  | next

/-- Nothing is being done with the process. -/
def Life.quiet (life : Life ι Signal) : Bool :=
  match life.pc with
  | .held => true
  | .gone => true
  | _ => false

/-- Only the destructor of the context drops a process that is held, and it does
nothing else with it. -/
def Action.allowed (dropping : Bool) : Action ι Signal → Bool
  | .drop => dropping
  | .wait => !dropping
  | .join => !dropping
  | _ => true

namespace Owner

variable [DecidableEq ι] [ToString Signal] (sigkill : Signal)

/-- Nothing is being done with the other processes. -/
def alone (owner : Owner ι Signal) (index : Nat) : Bool :=
  (owner.lives.eraseIdx index).all Life.quiet

/-- A step for the process at this index. -/
def stepLife (owner : Owner ι Signal) (index : Nat) (action : Action ι Signal) :
    Option (Owner ι Signal) :=
  owner.lives[index]?.bind fun life =>
    (Life.step sigkill life action).map fun next =>
      { owner with lives := owner.lives.set index next }

/-- One step of the owner. -/
def step (owner : Owner ι Signal) (action : OwnerAction ι Signal) : Option (Owner ι Signal) :=
  match owner.pc, action with
  | .body, .create =>
      if owner.lives.all Life.quiet then some { owner with lives := owner.lives ++ [Life.new] }
      else none
  | .body, .life index action =>
      if action.allowed false && owner.alone index then owner.stepLife sigkill index action
      else none
  | .body, .leave =>
      if owner.lives.all Life.quiet then some { owner with pc := .dropping 0 } else none
  | .dropping index, .life index' action =>
      if index' = index ∧ action.allowed true = true then owner.stepLife sigkill index action
      else none
  | .dropping index, .next =>
      match owner.lives[index]? with
      | none => some { owner with pc := .returned }
      | some life =>
          if life.pc = .gone then some { owner with pc := .dropping (index + 1) } else none
  | _, _ => none

end Owner

/-- A context without processes, and any use of it. -/
def ownerSystem [DecidableEq ι] [ToString Signal] (sigkill : Signal) :
    System (Owner ι Signal) (OwnerAction ι Signal) where
  init owner := owner = ⟨.body, []⟩
  step := Owner.step sigkill

variable [DecidableEq ι] [ToString Signal] {sigkill : Signal} {life next : Life ι Signal}

/-! ## Whole runs -/

/-- The processes are dropped one after another. -/
def InOrder (owner : Owner ι Signal) : Prop :=
  match owner.pc with
  | .body => True
  | .dropping index => ∀ other life, owner.lives[other]? = some life →
      (other < index → life.pc = .gone) ∧ (index < other → life.quiet = true)
  | .returned => ∀ life ∈ owner.lives, life.pc = .gone

variable {owner ownerNext : Owner ι Signal}

theorem Owner.stepLife_eq_some_iff {index : Nat} {action : Action ι Signal} :
    owner.stepLife sigkill index action = some ownerNext ↔
      ∃ life next, owner.lives[index]? = some life ∧ life.step sigkill action = some next ∧
        ownerNext = { owner with lives := owner.lives.set index next } := by
  simp only [Owner.stepLife, Option.bind_eq_some_iff, Option.map_eq_some_iff]
  constructor
  · rintro ⟨life, found, next, step, rfl⟩
    exact ⟨life, next, found, step, rfl⟩
  · rintro ⟨life, next, found, step, rfl⟩
    exact ⟨life, found, next, step, rfl⟩

theorem sound_of_step {action : OwnerAction ι Signal}
    (sound : ∀ life ∈ owner.lives, Sound sigkill life)
    (step : owner.step sigkill action = some ownerNext) :
    ∀ life ∈ ownerNext.lives, Sound sigkill life := by
  have stepped {index : Nat} {action : Action ι Signal}
      (step : owner.stepLife sigkill index action = some ownerNext) :
      ∀ life ∈ ownerNext.lives, Sound sigkill life := by
    obtain ⟨life, next, found, lifeStep, rfl⟩ := Owner.stepLife_eq_some_iff.mp step
    intro other member
    rcases List.mem_or_eq_of_mem_set member with older | rfl
    · exact sound other older
    · exact (sound life (List.mem_of_getElem? found)).step lifeStep
  unfold Owner.step at step
  split at step
  case h_1 =>
    split at step
    · cases step
      exact List.forall_mem_append.mpr ⟨sound, by simp [Sound.new]⟩
    · contradiction
  case h_2 =>
    split at step
    · exact stepped step
    · contradiction
  case h_3 =>
    split at step
    · cases step
      exact sound
    · contradiction
  case h_4 =>
    split at step
    · exact stepped step
    · contradiction
  case h_5 =>
    split at step
    · cases step
      exact sound
    · split at step
      · cases step
        exact sound
      · contradiction
  case h_6 => contradiction

theorem InOrder.step {action : OwnerAction ι Signal} (inOrder : InOrder owner)
    (step : owner.step sigkill action = some ownerNext) : InOrder ownerNext := by
  unfold Owner.step at step
  split at step
  case h_1 here =>
    split at step
    · cases step
      simp [InOrder, here]
    · contradiction
  case h_2 here =>
    split at step
    · obtain ⟨life, next, found, _, rfl⟩ := Owner.stepLife_eq_some_iff.mp step
      simp [InOrder, here]
    · contradiction
  case h_3 here =>
    split at step
    · rename_i quiet
      cases step
      intro other life found
      exact ⟨fun before => absurd before (Nat.not_lt_zero other),
        fun _ => List.all_eq_true.mp quiet life (List.mem_of_getElem? found)⟩
    · contradiction
  case h_4 index index' action here =>
    split at step
    · obtain ⟨life, next, _, _, rfl⟩ := Owner.stepLife_eq_some_iff.mp step
      simp only [InOrder, here] at inOrder ⊢
      intro other later found
      by_cases same : index = other
      · subst same
        simp
      · rw [List.getElem?_set_ne same] at found
        exact inOrder other later found
    · contradiction
  case h_5 index here =>
    simp only [InOrder, here] at inOrder
    split at step
    · rename_i absent
      cases step
      intro life member
      obtain ⟨other, found⟩ := List.getElem?_of_mem member
      refine (inOrder other life found).1 ?_
      have bound : other < owner.lives.length := (List.getElem?_eq_some_iff.mp found).1
      exact Nat.lt_of_lt_of_le bound (List.getElem?_eq_none_iff.mp absent)
    · rename_i life found
      split at step
      · rename_i gone
        cases step
        intro other later found'
        constructor
        · intro before
          rcases Nat.lt_succ_iff_lt_or_eq.mp before with earlier | rfl
          · exact (inOrder other later found').1 earlier
          · cases found.symm.trans found'
            exact gone
        · intro after
          exact (inOrder other later found').2 (Nat.lt_of_succ_lt after)
      · contradiction
  case h_6 => contradiction

/-- The end of the child has been reported, once. -/
def Reaped (life : Life ι Signal) (pid : ι) : Prop :=
  ∃ handle verdict, life.child = some (pid, handle) ∧ Concluded pid verdict handle

theorem Sound.reaped (sound : Sound sigkill life) {pid : ι} (joined : .joined ∈ life.log)
    (started : .spawned pid ∈ life.log) : Reaped life pid := by
  obtain ⟨handle, child⟩ := sound.owned.owns pid started
  obtain ⟨verdict, kept⟩ := Option.ne_none_iff_exists'.mp (sound.known joined pid handle child)
  exact ⟨handle, verdict, child, concluded_of_reachable (sound.owned.handles pid handle child) kept⟩

/-- What may have been done for a process. -/
inductive Shaped : List (Step ι) → Prop
  | new : Shaped []
  | cgroup : Shaped [.cgroup]
  | unused {removed : Bool} : Shaped [.removal removed, .cgroup]
  | used {pid : ι} {log : List (Step ι)} : Used pid log → Shaped log
  | removed {pid : ι} {removed : Bool} {older : List (Step ι)} : Used pid older →
      JoinedLast older → Shaped (.removal removed :: older)

omit [DecidableEq ι] [ToString Signal] in
theorem Uses.shaped {p : Handle ι Signal → Prop} (uses : Uses life p) : Shaped life.log := by
  obtain ⟨pid, handle, _, used, _⟩ := uses
  exact .used used

omit [DecidableEq ι] [ToString Signal] in
theorem Removed.shaped {p : Handle ι Signal → Prop} (removed : Removed life p) :
    Shaped life.log := by
  obtain ⟨pid, handle, _, older, _, log, used, last, _⟩ := removed
  rw [log]
  exact .removed used last

omit [DecidableEq ι] [ToString Signal] in
theorem Placed.shaped (placed : Placed sigkill life) : Shaped life.log := by
  unfold Placed at placed
  split at placed
  case h_1 => exact placed.2 ▸ .new
  case h_2 => exact placed.2 ▸ .cgroup
  case h_3 => exact placed.2 ▸ .cgroup
  case h_12 =>
    rcases placed with unused | used
    · exact unused.2 ▸ .cgroup
    · exact used.1.shaped
  case h_13 => exact placed.shaped
  case h_14 => exact placed.shaped
  case h_15 =>
    rcases placed with ⟨_, log | ⟨_, log⟩⟩ | removed
    · exact log ▸ .new
    · exact log ▸ .unused
    · exact removed.shaped
  all_goals exact placed.shaped

omit [DecidableEq ι] [ToString Signal] in
theorem Used.not_removed {pid : ι} {log : List (Step ι)} (used : Used pid log)
    (removed : Bool) : .removal removed ∉ log := by
  induction used with
  | spawned => simp
  | joined _ ih => simpa using ih
  | unkilled _ ih => simpa using ih

omit [DecidableEq ι] [ToString Signal] in
theorem Used.cgroup_mem {pid : ι} {log : List (Step ι)} (used : Used pid log) :
    .cgroup ∈ log := by
  induction used with
  | spawned => simp
  | joined _ ih => exact List.mem_cons_of_mem _ ih
  | unkilled _ ih => exact List.mem_cons_of_mem _ ih

omit [DecidableEq ι] [ToString Signal] in
theorem Used.within {pid other : ι} {log newer older : List (Step ι)} (used : Used pid log)
    (split : log = newer ++ .spawned other :: older) : older = [.cgroup] := by
  induction used generalizing newer with
  | spawned =>
      match newer with
      | [] =>
          cases split
          rfl
      | [_] => cases split
      | _ :: _ :: rest => simp at split
  | joined _ ih =>
      cases newer with
      | nil => cases split
      | cons _ rest => exact ih (List.cons.inj split).2
  | unkilled _ ih =>
      cases newer with
      | nil => cases split
      | cons _ rest => exact ih (List.cons.inj split).2

omit [DecidableEq ι] [ToString Signal] in
theorem Shaped.within {pid : ι} {log newer older : List (Step ι)} (shaped : Shaped log)
    (split : log = newer ++ .spawned pid :: older) : older = [.cgroup] := by
  have member : .spawned pid ∈ log := by simp [split]
  cases shaped with
  | new => simp at member
  | cgroup => simp at member
  | unused => simp at member
  | used used => exact used.within split
  | removed used _ =>
      cases newer with
      | nil => cases split
      | cons _ rest => exact used.within (List.cons.inj split).2

omit [DecidableEq ι] [ToString Signal] in
theorem Shaped.removed_last {log newer older : List (Step ι)} {removed : Bool}
    (shaped : Shaped log) (split : log = newer ++ .removal removed :: older) :
    newer = [] ∧ .cgroup ∈ older ∧ ∀ pid, .spawned pid ∈ older → JoinedLast older := by
  have member : .removal removed ∈ log := by simp [split]
  cases shaped with
  | new => simp at member
  | cgroup => simp at member
  | unused =>
      match newer with
      | [] =>
          cases split
          simp
      | [_] => cases split
      | _ :: _ :: rest => simp at split
  | used used => exact absurd member (used.not_removed removed)
  | removed used last =>
      cases newer with
      | nil =>
          cases split
          exact ⟨rfl, used.cgroup_mem, fun _ _ => last⟩
      | cons _ rest =>
          refine absurd ?_ (used.not_removed removed)
          rw [(List.cons.inj split).2]
          exact List.mem_append_right rest List.mem_cons_self

/-- What a context keeps to with each of its processes. -/
structure Tidy (life : Life ι Signal) : Prop where
  /-- A child is started in a cgroup. -/
  within : ∀ newer pid older, life.log = newer ++ .spawned pid :: older → older = [.cgroup]
  /-- Where `join` has waited, the end of the child has been reported. -/
  joined : .joined ∈ life.log → ∀ pid, .spawned pid ∈ life.log → Reaped life pid
  /-- The removal of the cgroup is attempted once; no child is started and nobody is
  joined after it, and where there is a child, it follows right on a call of `join`. -/
  removed : ∀ newer removed older, life.log = newer ++ .removal removed :: older →
    newer = [] ∧ .cgroup ∈ older ∧ ∀ pid, .spawned pid ∈ older → JoinedLast older
  /-- Where the process is gone, the removal of its cgroup has been attempted, and the end
  of its child has been reported. -/
  gone : life.pc = .gone → (.cgroup ∈ life.log → ∃ removed, .removal removed ∈ life.log) ∧
    ∀ pid, .spawned pid ∈ life.log → Reaped life pid

theorem Sound.tidy (sound : Sound sigkill life) : Tidy life := by
  have shaped := sound.placed.shaped
  constructor
  case within => exact fun newer pid older => shaped.within
  case joined => exact fun joined pid => sound.reaped joined
  case removed => exact fun newer removed older => shaped.removed_last
  case gone =>
    intro here
    have placed := sound.placed
    simp only [Placed, here] at placed
    rcases placed with ⟨_, log | ⟨_, log⟩⟩ |
      ⟨pid, handle, removed, older, child, log, _, _, dropped⟩
    · simp [log]
    · simp [log]
    · refine ⟨fun _ => ⟨removed, by simp [log]⟩, fun pid' started => ?_⟩
      obtain ⟨handle', verdict, child', concluded⟩ := sound.owned.concluded started
        fun pid' handle' child' => by
          cases child.symm.trans child'
          exact dropped
      exact ⟨handle', verdict, child', concluded⟩

/-- What a context keeps to. -/
structure CleansUp (owner : Owner ι Signal) : Prop where
  tidy : ∀ life ∈ owner.lives, Tidy life
  /-- The processes are dropped one at a time, in the order in which they were created. -/
  inOrder : ∀ index, owner.pc = .dropping index → ∀ other life, owner.lives[other]? = some life →
    (other < index → life.pc = .gone) ∧ (index < other → life.quiet = true)
  /-- At the end, all are gone. -/
  gone : owner.pc = .returned → ∀ life ∈ owner.lives, life.pc = .gone

theorem context_cleans_up (sigkill : Signal) (owner : Owner ι Signal)
    (reachable : (ownerSystem sigkill).Reachable owner) : CleansUp owner := by
  have sound : ∀ life ∈ owner.lives, Sound sigkill life := by
    apply reachable.invariant fun owner => ∀ life ∈ owner.lives, Sound sigkill life
    case base =>
      rintro owner rfl
      exact List.forall_mem_nil _
    case preserve =>
      intro owner action next _ step sound
      exact sound_of_step sound step
  have inOrder : InOrder owner := by
    apply reachable.invariant InOrder
    case base =>
      rintro owner rfl
      trivial
    case preserve =>
      intro owner action next _ step inOrder
      exact inOrder.step step
  constructor
  case tidy => exact fun life member => (sound life member).tidy
  case inOrder =>
    intro index here
    simpa only [InOrder, here] using inOrder
  case gone =>
    intro here
    simpa only [InOrder, here] using inOrder

/-- The calls of a process up to `held`, with the child `pid`. -/
def creating (index pid : Nat) : List (OwnerAction Nat String) :=
  .create :: ([.cgroup true, .allocate true, .allocate true, .allocate true, .spawn (some pid),
    .consume true].map (OwnerAction.life index))

/-- The calls of a destructor, where the signal is sent. -/
def dropping (index pid : Nat) (removed : Bool) : List (OwnerAction Nat String) :=
  [.drop, .call, .answer (.waitpid .stillAlive), .answer (.kill (.ok ())), .call,
    .answer (.waitpid (.status pid (.signaled "SIGKILL"))), .answer (.read (.bytes [])),
    .remove removed, .call].map (OwnerAction.life index)

/-- Two processes are created, and a third fails since no child can be started; one
cgroup cannot be removed. -/
def failing : List (OwnerAction Nat String) :=
  creating 0 5 ++ creating 1 6 ++
    .create :: ([.cgroup true, .allocate true, .allocate true, .allocate true, .spawn none,
      .remove true].map (OwnerAction.life 2)) ++
    .leave :: dropping 0 5 true ++ .next :: dropping 1 6 false ++ [.next, .next, .next]

/-- What was done for each of the three. -/
def failingLogs : List (List (Step Nat)) :=
  [[.removal true, .joined, .spawned 5, .cgroup], [.removal false, .joined, .spawned 6, .cgroup],
    [.removal true, .cgroup]]

theorem context_cleans_up_failing :
    ∃ owner : Owner Nat String, (owner.pc = .returned ∧
      owner.lives.map (fun life => life.log) = failingLogs) ∧ CleansUp owner := by
  have initial : (ownerSystem "SIGKILL" : System (Owner Nat String) _).init ⟨.body, []⟩ := rfl
  obtain ⟨owner, reachable, ended⟩ := System.exists_reachable_of_exec failing
    (fun owner : Owner Nat String => decide (owner.pc = ContextPc.returned ∧
      owner.lives.map (fun life => life.log) = failingLogs)) initial (by decide)
  exact ⟨owner, of_decide_eq_true ended, context_cleans_up "SIGKILL" owner reachable⟩

end Schtest.Process.Lifecycle
