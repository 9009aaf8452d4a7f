import Mathlib.Data.Finset.Basic
import Schtest.Topology.Mask
import Schtest.Transition.Core

/-!
# Running on a set of CPUs

`CPUSet::run` sets the affinity of its thread, calls a function, and sets it back.  A
thread inherits the affinity of the one that starts it.  The kernel keeps only the CPUs
that the cpuset of the threads allows, which stay the same.
-/

namespace Schtest.Topology.Affinity

open Schtest.Transition

/-! ## The kernel -/

/-- The CPUs of a mask. -/
def cpus (mask : CpuSet) : Finset Nat :=
  (Finset.range CPU_SETSIZE).filter fun cpu => mask.get cpu

/-- The CPUs that the cpuset allows, and whether a mask of the kernel fits into a
`cpu_set_t`. -/
structure Kernel where
  possible : Finset Nat
  nonempty : possible ≠ ∅
  fits : Bool

namespace Kernel

variable (kernel : Kernel)

/-- `sched_getaffinity` fails with `EINVAL` where the mask does not fit. -/
def getaffinity (affinity : Finset Nat) : Option (Finset Nat) :=
  if kernel.fits then some affinity else none

/-- `sched_setaffinity` fails with `EINVAL` where no CPU is left. -/
def setaffinity (set : Finset Nat) : Option (Finset Nat) :=
  if set ∩ kernel.possible = ∅ then none else some (set ∩ kernel.possible)

/-- An affinity that a thread can have. -/
structure Allows (affinity : Finset Nat) : Prop where
  nonempty : affinity ≠ ∅
  possible : affinity ⊆ kernel.possible

end Kernel

/-! ## Threads -/

/-- What the threads of the tests do about CPUs. -/
inductive Stmt
  /-- Anything else. -/
  | other
  /-- `spinner.spin(..)`. -/
  | spin (spinner : Nat)
  /-- `mask.run(|| ..)`. -/
  | run (mask : CpuSet) (body : List Stmt)
  | loop (body : List Stmt)
  /-- A thread or a process is started. -/
  | spawn (body : List Stmt)

/-- `mask.migrate()`. -/
def Stmt.migrate (mask : CpuSet) : Stmt :=
  .run mask []

/-- What is left to do: a statement, or the rest of a call of `run`. -/
inductive Frame
  | stmt (stmt : Stmt)
  | restore (mask : CpuSet) (orig : Finset Nat)

/-- What the caller of `run` does about its error. -/
inductive Handling
  | ignored
  /-- `?`: the closure of the caller returns. -/
  | returned
  /-- `unwrap()`. -/
  | panicked
  deriving DecidableEq, Repr

/-- A thread: the CPUs it may run on, and what it has left to do. -/
structure Thread where
  affinity : Finset Nat
  frames : List Frame
  /-- The affinity that it was started with. -/
  inherited : Finset Nat
  panicked : Bool

/-- The statements of a function. -/
def enter (body : List Stmt) (rest : List Frame) : List Frame :=
  body.map Frame.stmt ++ rest

/-- A thread that has just been started. -/
def started (affinity : Finset Nat) (body : List Stmt) : Thread :=
  ⟨affinity, enter body [], affinity, false⟩

/-- The closure returns early. -/
def leave : List Frame → List Frame
  | .stmt _ :: rest => leave rest
  | frames => frames

/-- The set of the innermost call of `run`. -/
def scope : List Frame → Option CpuSet
  | [] => none
  | .stmt _ :: rest => scope rest
  | .restore mask _ :: _ => some mask

/-- A panic unwinds all frames. -/
def Thread.panic (thread : Thread) : Thread :=
  { thread with frames := [], panicked := true }

/-- A call of `run` has failed. -/
def Thread.fail (thread : Thread) (handling : Handling) (rest : List Frame) : Thread :=
  match handling with
  | .ignored => { thread with frames := rest }
  | .returned => { thread with frames := leave rest }
  | .panicked => thread.panic

/-- A spinner was on a CPU. -/
structure Sighting where
  spinner : Nat
  cpu : Nat
  scope : Option CpuSet
  inherited : Finset Nat

/-- The errors of `run`, without the one of the system. -/
inductive Failed
  | get
  | set
  | restore
  deriving DecidableEq, Repr

/-- The context of the call's error. -/
def Failed.text : Failed → String
  | .get => "unable to get current CPU mask"
  | .set => "unable to set CPU mask"
  | .restore => "unable to restore CPU mask"

/-- All threads and spinners, with what the spinners have seen and how calls have failed. -/
structure Threads where
  threads : List Thread
  lastCpu : Nat → Nat
  seen : List Sighting
  failed : List Failed

/-- What a step does to a thread, and apart from it. -/
structure Effect where
  thread : Thread
  spawned : Option Thread
  seen : Option Sighting
  failed : Option Failed

/-- The steps of a thread. -/
inductive Move
  /-- The next statement, with the handling of an error. -/
  | next (handling : Handling)
  /-- A turn of the loop of `spin`, with the answer of `sched_getcpu`. -/
  | turn (cpu : Option Nat)
  | panic
  deriving DecidableEq, Repr

/-- A step of which only the thread itself is aware. -/
def quietly (thread : Thread) : Effect :=
  ⟨thread, none, none, none⟩

/-- A step whose system call has failed. -/
def failing (thread : Thread) (failed : Failed) : Effect :=
  ⟨thread, none, none, some failed⟩

/-- The beginning of `run`, up to the call of the function. -/
def Thread.run (kernel : Kernel) (thread : Thread) (handling : Handling) (mask : CpuSet)
    (body : List Stmt) (rest : List Frame) : Effect :=
  match kernel.getaffinity thread.affinity with
  | none => failing (thread.fail handling rest) .get
  | some orig =>
      match kernel.setaffinity (cpus mask) with
      | none => failing (thread.fail handling rest) .set
      | some affinity => quietly
          { thread with affinity, frames := enter body (.restore mask orig :: rest) }

/-- The end of `run`. -/
def Thread.restore (kernel : Kernel) (thread : Thread) (handling : Handling)
    (orig : Finset Nat) (rest : List Frame) : Effect :=
  match kernel.setaffinity orig with
  | none => failing (thread.fail handling rest) .restore
  | some affinity => quietly { thread with affinity, frames := rest }

/-- One step of a thread. -/
def Thread.step (kernel : Kernel) (thread : Thread) : Move → Option Effect
  | .next handling =>
      match thread.frames with
      | [] => none
      | .stmt (.other) :: rest => some (quietly { thread with frames := rest })
      | .stmt (.spin _) :: rest => some (quietly { thread with frames := rest })
      | .stmt (.run mask body) :: rest => some (thread.run kernel handling mask body rest)
      | .stmt (.loop body) :: rest =>
          some (quietly { thread with frames := enter body (.stmt (.loop body) :: rest) })
      | .stmt (.spawn body) :: rest =>
          some { quietly { thread with frames := rest } with
            spawned := some (started thread.affinity body) }
      | .restore _ orig :: rest => some (thread.restore kernel handling orig rest)
  | .turn none =>
      match thread.frames with
      | .stmt (.spin _) :: _ => some (quietly thread)
      | _ => none
  | .turn (some cpu) =>
      match thread.frames with
      | .stmt (.spin spinner) :: rest =>
          if cpu ∈ thread.affinity then
            some { quietly thread with
              seen := some ⟨spinner, cpu, scope rest, thread.inherited⟩ }
          else none
      | _ => none
  | .panic => if thread.frames = [] then none else some (quietly thread.panic)

/-- One step of one of the threads. -/
def step (kernel : Kernel) (state : Threads) (action : Nat × Move) : Option Threads := do
  let thread ← state.threads[action.1]?
  let effect ← thread.step kernel action.2
  some
    { threads := state.threads.set action.1 effect.thread ++ effect.spawned.toList
      lastCpu := match effect.seen with
        | some sighting => Function.update state.lastCpu sighting.spinner sighting.cpu
        | none => state.lastCpu
      seen := state.seen ++ effect.seen.toList
      failed := state.failed ++ effect.failed.toList }

/-- One thread starts, and `Spinner::default()` is on CPU 0. -/
def system (kernel : Kernel) : Transition.System Threads (Nat × Move) where
  init state := ∃ affinity body, kernel.Allows affinity ∧
    state = ⟨[started affinity body], fun _ => 0, [], []⟩
  step := step kernel

/-! ## Nested calls of `run` -/

section Nested

variable {kernel : Kernel} {inherited affinity : Finset Nat}

/-- Every call of `run` has set the affinity of its function, and will set back one that is
allowed: the one that the function it was called in runs with. -/
def Nested (kernel : Kernel) (inherited : Finset Nat) : Finset Nat → List Frame → Prop
  | affinity, [] => affinity = inherited
  | affinity, .stmt _ :: rest => Nested kernel inherited affinity rest
  | affinity, .restore mask orig :: rest =>
      kernel.fits = true ∧ affinity = cpus mask ∩ kernel.possible ∧ kernel.Allows orig ∧
        Nested kernel inherited orig rest

/-- The affinity that a function runs with. -/
def Kernel.effective (kernel : Kernel) (inherited : Finset Nat) : Option CpuSet → Finset Nat
  | none => inherited
  | some mask => cpus mask ∩ kernel.possible

theorem nested_enter (body : List Stmt) (rest : List Frame) :
    Nested kernel inherited affinity (enter body rest) ↔
      Nested kernel inherited affinity rest := by
  induction body with
  | nil => rfl
  | cons first others ih => exact ih

theorem Nested.leave {frames : List Frame} (nested : Nested kernel inherited affinity frames) :
    Nested kernel inherited affinity (leave frames) := by
  induction frames with
  | nil => exact nested
  | cons frame rest ih =>
      cases frame with
      | stmt stmt => exact ih nested
      | restore mask orig => exact nested

theorem Nested.affinity_eq {frames : List Frame}
    (nested : Nested kernel inherited affinity frames) :
    affinity = kernel.effective inherited (scope frames) := by
  induction frames with
  | nil => exact nested
  | cons frame rest ih =>
      cases frame with
      | stmt stmt => exact ih nested
      | restore mask orig => exact nested.2.1

/-- Where the masks of the kernel do not fit, no function is called. -/
theorem Nested.scope_eq_none {frames : List Frame}
    (nested : Nested kernel inherited affinity frames) (unfit : kernel.fits = false) :
    scope frames = none := by
  induction frames with
  | nil => rfl
  | cons frame rest ih =>
      cases frame with
      | stmt stmt => exact ih nested
      | restore mask orig => exact absurd nested.1 (by simp [unfit])

/-- What was an affinity can be set back. -/
theorem Kernel.Allows.setaffinity_eq (allows : kernel.Allows affinity) :
    kernel.setaffinity affinity = some affinity := by
  have kept : affinity ∩ kernel.possible = affinity :=
    Finset.inter_eq_left.mpr allows.possible
  rw [Kernel.setaffinity, kept, if_neg allows.nonempty]

theorem Kernel.allows_of_setaffinity {set : Finset Nat}
    (done : kernel.setaffinity set = some affinity) :
    affinity = set ∩ kernel.possible ∧ kernel.Allows affinity := by
  unfold Kernel.setaffinity at done
  split at done
  · cases done
  · rename_i some
    cases done
    exact ⟨rfl, some, Finset.inter_subset_right⟩

end Nested

/-! ## One thread -/

section Thread

variable {kernel : Kernel} {thread : Thread}

/-- A thread runs on the CPUs of the sets it is in. -/
structure Thread.Sound (kernel : Kernel) (thread : Thread) : Prop where
  allows : kernel.Allows thread.affinity
  inherits : kernel.Allows thread.inherited
  nested : thread.panicked = false → Nested kernel thread.inherited thread.affinity thread.frames
  unwound : thread.panicked = true → thread.frames = []

theorem sound_started {affinity : Finset Nat} (allows : kernel.Allows affinity)
    (body : List Stmt) : (started affinity body).Sound kernel := by
  constructor
  case allows => exact allows
  case inherits => exact allows
  case nested => exact fun _ => (nested_enter body []).mpr rfl
  case unwound => exact fun panicked => Bool.noConfusion panicked

/-- A thread that has a statement left has not panicked. -/
theorem Thread.Sound.running (sound : thread.Sound kernel) {frame : Frame} {rest : List Frame}
    (frames : thread.frames = frame :: rest) :
    thread.panicked = false ∧ Nested kernel thread.inherited thread.affinity (frame :: rest) := by
  have running : thread.panicked = false := by
    by_contra panicked
    have none := sound.unwound (Bool.not_eq_false _ ▸ panicked)
    rw [frames] at none
    cases none
  exact ⟨running, frames ▸ sound.nested running⟩

theorem Thread.Sound.panic (sound : thread.Sound kernel) : thread.panic.Sound kernel where
  allows := sound.allows
  inherits := sound.inherits
  nested running := Bool.noConfusion running
  unwound _ := rfl

/-- The thread goes on with other frames of the same function. -/
theorem Thread.Sound.withFrames (sound : thread.Sound kernel)
    (running : thread.panicked = false) (frames : List Frame)
    (nested : Nested kernel thread.inherited thread.affinity frames) :
    Thread.Sound kernel { thread with frames } where
  allows := sound.allows
  inherits := sound.inherits
  nested _ := nested
  unwound panicked := absurd panicked (by simp [running])

theorem Thread.Sound.fail (sound : thread.Sound kernel) (running : thread.panicked = false)
    (rest : List Frame) (nested : Nested kernel thread.inherited thread.affinity rest)
    (handling : Handling) : (thread.fail handling rest).Sound kernel := by
  cases handling with
  | ignored => exact sound.withFrames running rest nested
  | returned => exact sound.withFrames running _ nested.leave
  | panicked => exact sound.panic

/-- What a sighting says: the CPU is one of the set that the function runs on. -/
def Sighting.Within (kernel : Kernel) (sighting : Sighting) : Prop :=
  sighting.cpu ∈ kernel.effective sighting.inherited sighting.scope

/-- A step leaves sound threads behind, and no restoring fails. -/
structure Effect.Sound (kernel : Kernel) (effect : Effect) : Prop where
  thread : effect.thread.Sound kernel
  spawned : ∀ thread, effect.spawned = some thread → thread.Sound kernel
  seen : ∀ sighting, effect.seen = some sighting → sighting.Within kernel
  restores : effect.failed ≠ some .restore

theorem quietly_sound (sound : thread.Sound kernel) : (quietly thread).Sound kernel where
  thread := sound
  spawned := by rintro _ ⟨⟩
  seen := by rintro _ ⟨⟩
  restores := by simp [quietly]

theorem failing_sound (sound : thread.Sound kernel) {failed : Failed} (other : failed ≠ .restore) :
    (failing thread failed).Sound kernel where
  thread := sound
  spawned := by rintro _ ⟨⟩
  seen := by rintro _ ⟨⟩
  restores := by simpa [failing] using other

theorem Thread.Sound.run (sound : thread.Sound kernel) {mask : CpuSet} {body : List Stmt}
    {rest : List Frame} (frames : thread.frames = .stmt (.run mask body) :: rest)
    (handling : Handling) : (thread.run kernel handling mask body rest).Sound kernel := by
  obtain ⟨running, nested⟩ := sound.running frames
  have failed := sound.fail running rest nested handling
  unfold Thread.run Kernel.getaffinity
  cases fits : kernel.fits with
  | false => exact failing_sound failed (by decide)
  | true =>
      cases done : kernel.setaffinity (cpus mask) with
      | none => exact failing_sound failed (by decide)
      | some affinity =>
          obtain ⟨rfl, allowed⟩ := Kernel.allows_of_setaffinity done
          apply quietly_sound
          constructor
          case allows => exact allowed
          case inherits => exact sound.inherits
          case nested => exact fun _ => (nested_enter body _).mpr ⟨fits, rfl, sound.allows, nested⟩
          case unwound => exact fun panicked => absurd panicked (by simp [running])

/-- What `run` has found is set back. -/
theorem Thread.Sound.restore (sound : thread.Sound kernel) {mask : CpuSet} {orig : Finset Nat}
    {rest : List Frame} (frames : thread.frames = .restore mask orig :: rest)
    (handling : Handling) : (thread.restore kernel handling orig rest).Sound kernel := by
  obtain ⟨running, _, _, allowed, nested⟩ := sound.running frames
  rw [Thread.restore, allowed.setaffinity_eq]
  apply quietly_sound
  constructor
  case allows => exact allowed
  case inherits => exact sound.inherits
  case nested => exact fun _ => nested
  case unwound => exact fun panicked => absurd panicked (by simp [running])

theorem Thread.Sound.next (sound : thread.Sound kernel) {handling : Handling} {effect : Effect}
    (step : thread.step kernel (.next handling) = some effect) : effect.Sound kernel := by
  cases frames : thread.frames with
  | nil => simp [Thread.step, frames] at step
  | cons frame rest =>
      obtain ⟨running, nested⟩ := sound.running frames
      cases frame with
      | restore mask orig =>
          simp only [Thread.step, frames, Option.some.injEq] at step
          exact step ▸ sound.restore frames handling
      | stmt stmt =>
          have goesOn := sound.withFrames running rest nested
          cases stmt with
          | other =>
              simp only [Thread.step, frames, Option.some.injEq] at step
              exact step ▸ quietly_sound goesOn
          | spin spinner =>
              simp only [Thread.step, frames, Option.some.injEq] at step
              exact step ▸ quietly_sound goesOn
          | run mask body =>
              simp only [Thread.step, frames, Option.some.injEq] at step
              exact step ▸ sound.run frames handling
          | loop body =>
              simp only [Thread.step, frames, Option.some.injEq] at step
              have again := (nested_enter body (.stmt (.loop body) :: rest)).mpr nested
              exact step ▸ quietly_sound (sound.withFrames running _ again)
          | spawn body =>
              simp only [Thread.step, frames, Option.some.injEq] at step
              subst step
              have quiet := quietly_sound goesOn
              constructor
              case thread => exact quiet.thread
              case spawned =>
                rintro _ ⟨⟩
                exact sound_started sound.allows body
              case seen => exact quiet.seen
              case restores => exact quiet.restores

/-- A spinner is seen where its function may run. -/
theorem Thread.Sound.turn (sound : thread.Sound kernel) {cpu : Option Nat} {effect : Effect}
    (step : thread.step kernel (.turn cpu) = some effect) : effect.Sound kernel := by
  cases cpu with
  | none =>
      simp only [Thread.step] at step
      split at step
      · cases step
        exact quietly_sound sound
      · cases step
  | some cpu =>
      simp only [Thread.step] at step
      split at step
      · rename_i spinner rest frames
        split at step
        · rename_i runs
          cases step
          have nested : Nested kernel thread.inherited thread.affinity rest :=
            (sound.running frames).2
          have quiet := quietly_sound sound
          constructor
          case thread => exact sound
          case spawned => exact quiet.spawned
          case seen =>
            rintro _ ⟨⟩
            rw [Sighting.Within, ← nested.affinity_eq]
            exact runs
          case restores => exact quiet.restores
        · cases step
      · cases step

theorem Thread.Sound.step (sound : thread.Sound kernel) {move : Move} {effect : Effect}
    (step : thread.step kernel move = some effect) : effect.Sound kernel := by
  cases move with
  | next handling => exact sound.next step
  | turn cpu => exact sound.turn step
  | panic =>
      simp only [Thread.step] at step
      split at step
      · cases step
      · cases step
        exact quietly_sound sound.panic

end Thread

/-! ## All threads -/

/-- What every spinner remembers. -/
def lastSeen (seen : List Sighting) (spinner : Nat) : Nat :=
  ((seen.filter fun sighting => sighting.spinner = spinner).getLast?.map Sighting.cpu).getD 0

/-- All threads are sound, and `last_cpu` is the last sighting. -/
structure Sound (kernel : Kernel) (state : Threads) : Prop where
  threads : ∀ thread ∈ state.threads, thread.Sound kernel
  seen : ∀ sighting ∈ state.seen, sighting.Within kernel
  restores : .restore ∉ state.failed
  remembers : state.lastCpu = lastSeen state.seen

section System

variable {kernel : Kernel} {state next : Threads}

theorem lastSeen_append (seen : List Sighting) (sighting : Sighting) :
    lastSeen (seen ++ [sighting]) =
      Function.update (lastSeen seen) sighting.spinner sighting.cpu := by
  funext spinner
  by_cases same : spinner = sighting.spinner
  · subst same
    simp [lastSeen]
  · simp [lastSeen, same, Ne.symm same]

theorem Sound.step (sound : Sound kernel state) {action : Nat × Move}
    (step : step kernel state action = some next) : Sound kernel next := by
  simp only [Affinity.step, Option.bind_eq_bind, Option.bind_eq_some_iff, Option.some.injEq]
    at step
  obtain ⟨thread, found, effect, stepped, rfl⟩ := step
  have after := (sound.threads thread (List.mem_of_getElem? found)).step stepped
  constructor
  case threads =>
    intro other has
    rcases List.mem_append.mp has with kept | new
    · rcases List.mem_or_eq_of_mem_set kept with before | rfl
      · exact sound.threads other before
      · exact after.thread
    · exact after.spawned other (Option.mem_toList.mp new)
  case seen =>
    intro sighting has
    rcases List.mem_append.mp has with before | new
    · exact sound.seen sighting before
    · exact after.seen sighting (Option.mem_toList.mp new)
  case restores =>
    intro has
    rcases List.mem_append.mp has with before | new
    · exact sound.restores before
    · exact after.restores (Option.mem_toList.mp new)
  case remembers =>
    cases sees : effect.seen with
    | none => simpa using sound.remembers
    | some sighting =>
        simp only [Option.toList_some, lastSeen_append]
        rw [sound.remembers]

theorem sound_of_reachable (reachable : (system kernel).Reachable state) :
    Sound kernel state := by
  apply reachable.invariant
  · rintro _ ⟨affinity, body, allows, rfl⟩
    constructor
    case threads =>
      intro thread has
      rw [List.mem_singleton.mp has]
      exact sound_started allows body
    case seen => exact List.forall_mem_nil _
    case restores => exact List.not_mem_nil
    case remembers => rfl
  · intro state action next _ step sound
    exact sound.step step

/-- Threads run where they should. -/
structure Scoped (kernel : Kernel) (state : Threads) : Prop where
  /-- A function runs on the CPUs of the innermost set it was handed to, as far as they are
  allowed, or on those that its thread was started with. -/
  runs : ∀ thread ∈ state.threads, thread.panicked = false →
    thread.affinity = kernel.effective thread.inherited (scope thread.frames)
  /-- Some CPU is left to every thread, also to one that has panicked. -/
  somewhere : ∀ thread ∈ state.threads, kernel.Allows thread.affinity
  /-- Every call of `run` that is not open has set back what it found. -/
  restored : ∀ thread ∈ state.threads, thread.panicked = false → scope thread.frames = none →
    thread.affinity = thread.inherited
  /-- Setting back has never failed. -/
  restores : Failed.restore ∉ state.failed
  /-- Where the masks of the kernel do not fit, no function is called. -/
  unfit : kernel.fits = false → ∀ thread ∈ state.threads, scope thread.frames = none
  /-- Spinners are seen where their functions may run: on CPUs with the ids of the set. -/
  seen : ∀ sighting ∈ state.seen, sighting.Within kernel ∧
    ∀ mask ids, sighting.scope = some mask → Exact (some mask) ids → (sighting.cpu : Int) ∈ ids
  /-- They remember the last CPU, or CPU 0 where they have seen none. -/
  remembers : state.lastCpu = lastSeen state.seen

theorem mem_of_exact {mask : CpuSet} {ids : List Int} (exact : Exact (some mask) ids) {cpu : Nat}
    (has : cpu ∈ cpus mask) : (cpu : Int) ∈ ids := by
  obtain ⟨inRange, bit⟩ := Finset.mem_filter.mp has
  exact (exact.2 cpu (Finset.mem_range.mp inRange)).mp ⟨mask, rfl, bit⟩

theorem threads_scoped (reachable : (system kernel).Reachable state) : Scoped kernel state := by
  have sound := sound_of_reachable reachable
  constructor
  case runs =>
    intro thread has running
    exact ((sound.threads thread has).nested running).affinity_eq
  case somewhere => exact fun thread has => (sound.threads thread has).allows
  case restored =>
    intro thread has running outside
    have place := ((sound.threads thread has).nested running).affinity_eq
    rwa [outside] at place
  case restores => exact sound.restores
  case unfit =>
    intro unfit thread has
    cases panicked : thread.panicked with
    | true => rw [(sound.threads thread has).unwound panicked, scope]
    | false => exact ((sound.threads thread has).nested panicked).scope_eq_none unfit
  case seen =>
    intro sighting has
    have within := sound.seen sighting has
    constructor
    · exact within
    · intro mask ids inside exact_
      rw [Sighting.Within, inside] at within
      exact mem_of_exact exact_ (Finset.mem_inter.mp within).1
  case remembers => exact sound.remembers

end System

/-- Three CPUs. -/
def threeCpus : Kernel where
  possible := {0, 1, 2}
  nonempty := by decide
  fits := true

/-- The set of CPU 1. -/
def cpuOne : CpuSet :=
  fun word => if word = 0 then 2#64 else 0#64

/-- A migration to CPU 1, a spinner on it, and one without a set after it. -/
def pinned : Threads :=
  ⟨[started {0, 1, 2} [.migrate cpuOne, .run cpuOne [.spin 0], .spin 1]], fun _ => 0, [], []⟩

/-- The spinner is seen in the set of CPU 1, and after it. -/
def pinnedMoves : List (Nat × Move) :=
  [(0, .next .returned), (0, .next .returned), (0, .next .returned), (0, .turn (some 1)),
    (0, .next .returned), (0, .next .returned), (0, .turn (some 2))]

theorem threads_scoped_pinned :
    ∃ state, Scoped threeCpus state ∧ (state.lastCpu 0 == 1 && state.lastCpu 1 == 2) = true := by
  have initial : (system threeCpus).init pinned :=
    ⟨{0, 1, 2}, _, ⟨by decide, by decide⟩, rfl⟩
  obtain ⟨state, reachable, saw⟩ := System.exists_reachable_of_exec pinnedMoves
    (fun state => state.lastCpu 0 == 1 && state.lastCpu 1 == 2) initial (by decide +kernel)
  exact ⟨state, threads_scoped reachable, saw⟩

end Schtest.Topology.Affinity
