import Schtest.Shared.Bump

/-!
# Retries end

A call of `alloc` starts over when its exchange fails.  Beside every call run
three counts that no step looks at: the position that the call has loaded first,
its failed exchanges, and its own steps.  An exchange fails only when the
position has grown since the call last loaded it, and the position stays within
the memfd.
-/

namespace Schtest.Shared

open Schtest.Transition

universe u

/-! ## Counting -/

/-- The counts of one call. -/
structure CallCount where
  first : Option U64
  failures : Nat
  steps : Nat

/-- The count of a call that has not begun. -/
def CallCount.zero : CallCount where
  first := none
  failures := 0
  steps := 0

/-- `compare_exchange` finds another position than the one it expects. -/
def AllocPc.fails (next : U64) : AllocPc → Bool
  | .exchange current _ => next ≠ current
  | _ => false

/-- The position that the call has loaded first, after a step. -/
def AllocPc.firstLoaded (next : U64) (first : Option U64) : AllocPc → Option U64
  | .load => some (first.getD next)
  | _ => first

/-- Count a step. -/
def CallCount.step (count : CallCount) (next : U64) (pc : AllocPc) : CallCount where
  first := pc.firstLoaded next count.first
  failures := count.failures + (pc.fails next).toNat
  steps := count.steps + 1

/-- A thread with the counts of its call. -/
structure Counting where
  thread : Allocating
  count : CallCount

/-- The allocator with the counts of the finished calls, newest first. -/
structure Counted where
  allocator : BumpAllocator
  calls : List CallCount

/-- One step of a thread, counted.  A call has returned when its layout is gone. -/
def Counting.step (memfd : MemFd) (counted : Counted) (counting : Counting) :
    Option (Counted × Counting) :=
  (counting.thread.step memfd counted.allocator).map fun result =>
    let count := counting.count.step counted.allocator.next counting.thread.pc
    if result.2.layouts.length < counting.thread.layouts.length then
      (⟨result.1, count :: counted.calls⟩, ⟨result.2, .zero⟩)
    else (⟨result.1, counted.calls⟩, ⟨result.2, count⟩)

/-- The program of the allocating threads, with the counts of their calls. -/
def countProgram (ι : Type u) (memfd : MemFd) : Program ι Counted Counting Unit where
  initShared counted := counted.allocator = .new ∧ counted.calls = []
  initLocal _ counting :=
    counting.thread.pc = .load ∧ counting.thread.stores = 0 ∧ counting.count = .zero
  step _ counted counting _ := counting.step memfd counted

variable {ι : Type u} [DecidableEq ι]

/-- All its interleavings. -/
abbrev countSystem (ι : Type u) [DecidableEq ι] (memfd : MemFd) :
    System (Threads ι Counted Counting) (ι × Unit) :=
  (countProgram ι memfd).system

/-! ## The counts change nothing -/

/-- The allocator and its threads without the counts. -/
def erase (config : Threads ι Counted Counting) : Threads ι BumpAllocator Allocating where
  shared := config.shared.allocator
  locals := fun tid => (config.locals tid).thread

theorem Counting.map_step (memfd : MemFd) (counted : Counted) (counting : Counting) :
    (counting.step memfd counted).map (fun result => (result.1.allocator, result.2.thread)) =
      counting.thread.step memfd counted.allocator := by
  unfold Counting.step
  rw [Option.map_map]
  cases counting.thread.step memfd counted.allocator with
  | none => rfl
  | some result =>
      simp only [Option.map_some, Function.comp_apply]
      split <;> rfl

/-- Counted steps are steps of the allocator. -/
theorem erase_step (memfd : MemFd) (config : Threads ι Counted Counting) (action : ι × Unit) :
    ((countSystem ι memfd).step config action).map erase =
      (allocSystem ι memfd).step (erase config) action := by
  obtain ⟨tid, _⟩ := action
  have threadStep := Counting.map_step memfd config.shared (config.locals tid)
  simp only [Program.system, countProgram, allocProgram, erase, Option.map_map] at threadStep ⊢
  rw [← threadStep, Option.map_map]
  congr 1
  funext result
  simp only [Function.comp_apply, erase]
  congr 1
  funext other
  by_cases same : other = tid
  · subst same
    simp
  · simp [same]

theorem reachable_erase {memfd : MemFd} {config : Threads ι Counted Counting}
    (reachable : (countSystem ι memfd).Reachable config) :
    (allocSystem ι memfd).Reachable (erase config) := by
  apply reachable.invariant fun config => (allocSystem ι memfd).Reachable (erase config)
  case base =>
    rintro state ⟨⟨allocator, -⟩, locals⟩
    exact .init ⟨allocator, fun tid => ⟨(locals tid).1, (locals tid).2.1⟩⟩
  case preserve =>
    intro state action next _ step erased
    apply erased.step
    rw [← erase_step, step]
    rfl

/-- Every run of the allocator can be counted. -/
theorem exists_counted {memfd : MemFd} {config : Threads ι BumpAllocator Allocating}
    (reachable : (allocSystem ι memfd).Reachable config) :
    ∃ counted, (countSystem ι memfd).Reachable counted ∧ erase counted = config := by
  apply reachable.invariant fun config =>
    ∃ counted, (countSystem ι memfd).Reachable counted ∧ erase counted = config
  case base =>
    rintro ⟨shared, locals⟩ ⟨allocator, threads⟩
    refine ⟨⟨⟨shared, []⟩, fun tid => ⟨locals tid, .zero⟩⟩, ?_, rfl⟩
    exact .init ⟨⟨allocator, rfl⟩, fun tid => ⟨(threads tid).1, (threads tid).2, rfl⟩⟩
  case preserve =>
    rintro state action next _ step ⟨counted, countedReachable, rfl⟩
    rw [← erase_step, Option.map_eq_some_iff] at step
    obtain ⟨countedNext, countedStep, erased⟩ := step
    exact ⟨countedNext, countedReachable.step countedStep, erased⟩

/-! ## The position grows between failures -/

/-- The position that a call has loaded last, or is about to load. -/
def AllocPc.seen (next : U64) : AllocPc → U64
  | .load => next
  | .check current => current
  | .exchange current _ => current

/-- The steps since the last start. -/
def AllocPc.done : AllocPc → Nat
  | .load => 0
  | .check _ => 1
  | .exchange _ _ => 2

theorem AllocPc.done_le (pc : AllocPc) : pc.done ≤ 2 := by
  cases pc <;> simp [AllocPc.done]

/-- Since the first load of a call, the position has grown with each failure. -/
structure CallCount.Grown (count : CallCount) (next : U64) (pc : AllocPc) (first : U64) :
    Prop where
  loaded : count.first = some first
  grown : first.toNat + count.failures ≤ (pc.seen next).toNat
  seen : (pc.seen next).toNat ≤ next.toNat
  steps : count.steps = 3 * count.failures + pc.done

/-- What the counts of a call say while it is at `pc`. -/
def CallCount.Tracks (count : CallCount) (next : U64) (pc : AllocPc) : Prop :=
  (pc = .load ∧ count = .zero) ∨ ∃ first, count.Grown next pc first

/-- What they say when it has returned. -/
def CallCount.Ended (count : CallCount) (next : U64) : Prop :=
  ∃ first, count.first = some first ∧ first.toNat + count.failures ≤ next.toNat ∧
    count.steps ≤ 3 * (count.failures + 1)

theorem CallCount.tracks_zero (next : U64) : CallCount.zero.Tracks next .load :=
  .inl ⟨rfl, rfl⟩

/-- What other threads do to the position does not matter. -/
theorem CallCount.Tracks.mono {count : CallCount} {next later : U64} {pc : AllocPc}
    (tracks : count.Tracks next pc) (grows : next.toNat ≤ later.toNat) :
    count.Tracks later pc := by
  rcases tracks with fresh | ⟨first, grown⟩
  · exact .inl fresh
  · right
    refine ⟨first, grown.loaded, ?_, ?_, grown.steps⟩
    · have before := grown.grown
      cases pc with
      | load => exact before.trans grows
      | check current => exact before
      | exchange current aligned => exact before
    · have before := grown.seen
      cases pc with
      | load => exact le_rfl
      | check current => exact before.trans grows
      | exchange current aligned => exact before.trans grows

theorem CallCount.Ended.mono {count : CallCount} {next later : U64} (ended : count.Ended next)
    (grows : next.toNat ≤ later.toNat) : count.Ended later := by
  obtain ⟨first, loaded, grown, steps⟩ := ended
  exact ⟨first, loaded, grown.trans grows, steps⟩

section Step

variable {count : CallCount} {next first : U64} {pc : AllocPc}

theorem CallCount.first_step (loaded : count.first = some first) :
    (count.step next pc).first = some first := by
  cases pc with
  | load => simp [CallCount.step, AllocPc.firstLoaded, loaded]
  | check current => exact loaded
  | exchange current aligned => exact loaded

theorem CallCount.failures_step (succeeds : pc.fails next = false) :
    (count.step next pc).failures = count.failures := by
  rw [CallCount.step, succeeds, Bool.toNat_false, Nat.add_zero]

/-- The first load, and every later one. -/
theorem CallCount.Tracks.load (tracks : count.Tracks next .load) :
    ∃ first, (count.step next .load).Grown next (.check next) first := by
  rcases tracks with ⟨-, rfl⟩ | ⟨first, loaded, grown, seen, steps⟩
  · exact ⟨next, rfl, le_rfl, le_rfl, rfl⟩
  · exact ⟨first, first_step loaded, grown, le_rfl, congrArg (· + 1) steps⟩

/-- A call that does not load has loaded before. -/
theorem CallCount.Tracks.grown (tracks : count.Tracks next pc) (later : pc ≠ .load) :
    ∃ first, count.Grown next pc first := by
  rcases tracks with ⟨atLoad, -⟩ | grown
  · contradiction
  · exact grown

theorem CallCount.Grown.check {current : U64} (grown : count.Grown next (.check current) first)
    (aligned : U64) :
    (count.step next (.check current)).Grown next (.exchange current aligned) first where
  loaded := grown.loaded
  grown := grown.grown
  seen := grown.seen
  steps := congrArg (· + 1) grown.steps

/-- Only a position that has grown makes the exchange fail. -/
theorem CallCount.Grown.fail {current aligned : U64}
    (grown : count.Grown next (.exchange current aligned) first) (changed : next ≠ current) :
    (count.step next (.exchange current aligned)).Grown next .load first := by
  have failures : (count.step next (.exchange current aligned)).failures =
      count.failures + 1 := by
    simp [CallCount.step, AllocPc.fails, changed]
  have larger : current.toNat < next.toNat := by
    have atMost : current.toNat ≤ next.toNat := grown.seen
    have different : next.toNat ≠ current.toNat :=
      fun same => changed (BitVec.eq_of_toNat_eq same)
    omega
  have before : first.toNat + count.failures ≤ current.toNat := grown.grown
  constructor
  case loaded => exact grown.loaded
  case grown =>
    rw [failures]
    simp only [AllocPc.seen]
    omega
  case seen => exact le_rfl
  case steps =>
    have steps := grown.steps
    rw [failures]
    simp only [CallCount.step, AllocPc.done] at steps ⊢
    omega

/-- A call that returns has made three steps after each failure. -/
theorem CallCount.Grown.ended (grown : count.Grown next pc first)
    (succeeds : pc.fails next = false) : (count.step next pc).Ended next := by
  refine ⟨first, first_step grown.loaded, ?_, ?_⟩
  · rw [failures_step succeeds]
    exact grown.grown.trans grown.seen
  · have steps := grown.steps
    have few := pc.done_le
    rw [failures_step succeeds]
    simp only [CallCount.step]
    omega

/-- The counts follow a step of the call. -/
theorem CallCount.Tracks.step (tracks : count.Tracks next pc) (memfd : MemFd) (layout : Layout) :
    match (allocStep memfd layout next pc).state with
    | .running pcNext => (count.step next pc).Tracks next pcNext
    | .returned _ => (count.step next pc).Ended next := by
  cases pc with
  | load => exact .inr tracks.load
  | check current =>
      obtain ⟨first, grown⟩ := tracks.grown (by simp)
      dsimp only [allocStep]
      by_cases full : memfd.size < alignUp current layout.align + layout.size
      · rw [if_pos full]
        exact grown.ended rfl
      · rw [if_neg full]
        exact .inr ⟨first, grown.check _⟩
  | exchange current aligned =>
      obtain ⟨first, grown⟩ := tracks.grown (by simp)
      dsimp only [allocStep]
      by_cases unchanged : next = current
      · rw [if_pos unchanged]
        exact grown.ended (by simp [AllocPc.fails, unchanged])
      · rw [if_neg unchanged]
        exact .inr ⟨first, grown.fail unchanged⟩

end Step

/-! ## Whole runs -/

/-- What a step does to the thread, to its counts and to the finished calls. -/
theorem Counting.step_cases {memfd : MemFd} {counted countedNext : Counted}
    {counting next : Counting} (step : counting.step memfd counted = some (countedNext, next)) :
    ∃ layout, (∃ pcNext,
        (allocStep memfd layout counted.allocator.next counting.thread.pc).state =
            .running pcNext ∧
          next.thread.pc = pcNext ∧ countedNext.calls = counted.calls ∧
          next.count = counting.count.step counted.allocator.next counting.thread.pc) ∨
      ∃ result,
        (allocStep memfd layout counted.allocator.next counting.thread.pc).state =
            .returned result ∧
          next.thread.pc = .load ∧ next.count = .zero ∧
          countedNext.calls =
            counting.count.step counted.allocator.next counting.thread.pc :: counted.calls := by
  obtain ⟨⟨layouts, pc, stores⟩, count⟩ := counting
  unfold Counting.step Allocating.step at step
  cases layouts with
  | nil => contradiction
  | cons layout rest =>
      refine ⟨layout, ?_⟩
      dsimp only at step
      split at step
      case h_1 pcNext running =>
        simp only [Option.map_some, lt_irrefl, if_false] at step
        cases step
        exact .inl ⟨pcNext, running, rfl, rfl, rfl⟩
      case h_2 result returned =>
        simp only [Option.map_some, List.length_cons, Nat.lt_succ_self, if_true] at step
        cases step
        exact .inr ⟨result, returned, rfl, rfl, rfl⟩

/-- The counts track all calls, finished or not. -/
structure Counted.Sound (memfd : MemFd) (counted : Counted) : Prop where
  packed : counted.allocator.Packed memfd
  ended : ∀ call ∈ counted.calls, call.Ended counted.allocator.next

/-- The count of a thread follows its program counter. -/
structure Counting.Sound (memfd : MemFd) (next : U64) (counting : Counting) : Prop where
  valid : counting.thread.Valid memfd
  tracks : counting.count.Tracks next counting.thread.pc

theorem Counting.sound_step {memfd : MemFd} {counted countedNext : Counted}
    {counting next : Counting} (sound : counted.Sound memfd)
    (own : counting.Sound memfd counted.allocator.next)
    (step : counting.step memfd counted = some (countedNext, next)) :
    countedNext.Sound memfd ∧ next.Sound memfd countedNext.allocator.next ∧
      counted.allocator.next.toNat ≤ countedNext.allocator.next.toNat := by
  have threadStep : counting.thread.step memfd counted.allocator =
      some (countedNext.allocator, next.thread) := by
    rw [← Counting.map_step, step]
    rfl
  obtain ⟨packed, valid, grows⟩ := sound.packed.step own.valid threadStep
  have older : ∀ call ∈ counted.calls, call.Ended countedNext.allocator.next :=
    fun call member => (sound.ended call member).mono grows
  obtain ⟨layout, ended⟩ := Counting.step_cases step
  have tracks := own.tracks.step memfd layout
  rcases ended with ⟨pcNext, running, atPc, calls, count⟩ | ⟨result, returned, atPc, count, calls⟩
  · rw [running] at tracks
    refine ⟨⟨packed, ?_⟩, ⟨valid, ?_⟩, grows⟩
    · rw [calls]
      exact older
    · rw [atPc, count]
      exact tracks.mono grows
  · rw [returned] at tracks
    refine ⟨⟨packed, ?_⟩, ⟨valid, ?_⟩, grows⟩
    · rw [calls, List.forall_mem_cons]
      exact ⟨tracks.mono grows, older⟩
    · rw [atPc, count]
      exact CallCount.tracks_zero _

theorem sound_of_reachable {memfd : MemFd} {config : Threads ι Counted Counting}
    (reachable : (countSystem ι memfd).Reachable config) :
    config.shared.Sound memfd ∧
      ∀ tid, (config.locals tid).Sound memfd config.shared.allocator.next := by
  refine Program.noninterference (Counted.Sound memfd)
    (fun _ counted counting => counting.Sound memfd counted.allocator.next) ?_ ?_ ?_ ?_ reachable
  case refine_1 =>
    rintro ⟨_, _⟩ ⟨rfl, rfl⟩
    constructor
    · exact ⟨Nat.zero_le _, by simp [BumpAllocator.new], .nil, by simp [BumpAllocator.new]⟩
    · exact List.forall_mem_nil _
  case refine_2 =>
    rintro tid counted counting _ ⟨atLoad, stores, count⟩
    refine ⟨⟨stores, fun _ _ _ => ?_⟩, ?_⟩
    · rw [atLoad]
      trivial
    · rw [atLoad, count]
      exact CallCount.tracks_zero _
  case refine_3 =>
    intro config tid _ shared next _ sound own step
    obtain ⟨soundNext, ownNext, -⟩ := Counting.sound_step sound (own tid) step
    exact ⟨soundNext, ownNext⟩
  case refine_4 =>
    intro config tid _ shared next other _ _ sound own step
    obtain ⟨-, -, grows⟩ := Counting.sound_step sound (own tid) step
    exact ⟨(own other).valid, (own other).tracks.mono grows⟩

/-- The failures of a call are bounded by what was left of the memfd when it
began, and so are its steps; and a thread is never kept from its next step. -/
structure RetriesEnd (memfd : MemFd) (config : Threads ι Counted Counting) : Prop where
  /-- Before its first load, a call has not failed. -/
  unstarted : ∀ tid, (config.locals tid).count.first = none →
    (config.locals tid).count.failures = 0
  running : ∀ tid first, (config.locals tid).count.first = some first →
    (config.locals tid).count.failures ≤ memfd.size.toNat - first.toNat
  finished : ∀ call ∈ config.shared.calls, ∃ first, call.first = some first ∧
    call.failures ≤ memfd.size.toNat - first.toNat
  runningSteps : ∀ tid,
    (config.locals tid).count.steps ≤ 3 * (config.locals tid).count.failures + 2
  finishedSteps : ∀ call ∈ config.shared.calls, call.steps ≤ 3 * (call.failures + 1)
  enabled : ∀ tid, (config.locals tid).thread.layouts ≠ [] →
    (countSystem ι memfd).Enabled config (tid, ())

theorem Counting.step_isSome {counting : Counting} (calls : counting.thread.layouts ≠ [])
    (memfd : MemFd) (counted : Counted) :
    (counting.step memfd counted).isSome := by
  unfold Counting.step Allocating.step
  rw [Option.isSome_map]
  cases layouts : counting.thread.layouts with
  | nil => contradiction
  | cons layout rest =>
      dsimp only
      split <;> rfl

/-- `alloc` starts over no more often than there are bytes left at its first load. -/
theorem retries_end (memfd : MemFd) (config : Threads ι Counted Counting)
    (reachable : (countSystem ι memfd).Reachable config) : RetriesEnd memfd config := by
  obtain ⟨sound, own⟩ := sound_of_reachable reachable
  have bounded := sound.packed.bounded
  constructor
  case unstarted =>
    intro tid unloaded
    rcases (own tid).tracks with ⟨-, zero⟩ | ⟨first, grown⟩
    · rw [zero]
      rfl
    · rw [grown.loaded] at unloaded
      contradiction
  case running =>
    intro tid first loaded
    rcases (own tid).tracks with ⟨-, zero⟩ | ⟨other, grown⟩
    · rw [zero] at loaded
      contradiction
    · rw [grown.loaded] at loaded
      cases loaded
      have failures := grown.grown.trans grown.seen
      omega
  case finished =>
    intro call member
    obtain ⟨first, loaded, failures, -⟩ := sound.ended call member
    refine ⟨first, loaded, ?_⟩
    omega
  case runningSteps =>
    intro tid
    rcases (own tid).tracks with ⟨-, zero⟩ | ⟨first, grown⟩
    · rw [zero]
      exact Nat.zero_le _
    · have steps := grown.steps
      have few := AllocPc.done_le (config.locals tid).thread.pc
      omega
  case finishedSteps =>
    intro call member
    obtain ⟨_, _, _, steps⟩ := sound.ended call member
    exact steps
  case enabled =>
    intro tid calls
    have step := Counting.step_isSome calls memfd config.shared
    simpa [System.Enabled, Program.system, countProgram] using step

/-- The second thread loses one exchange to the first thread. -/
theorem retries_end_lostExchange :
    ∃ config : Threads (Fin 2) Counted Counting,
      config.shared.calls.map CallCount.failures = [0, 1, 0] ∧
        RetriesEnd onePage config := by
  have initial : (countSystem (Fin 2) onePage).init
      ⟨⟨.new, []⟩, fun tid => ⟨⟨twoThreads tid, .load, 0⟩, .zero⟩⟩ :=
    ⟨⟨rfl, rfl⟩, fun _ => ⟨rfl, rfl, rfl⟩⟩
  let failed (config : Threads (Fin 2) Counted Counting) : Bool :=
    config.shared.calls.map CallCount.failures == [0, 1, 0]
  obtain ⟨config, reachable, failures⟩ :=
    System.exists_reachable_of_exec lostExchange failed initial (by decide)
  exact ⟨config, eq_of_beq failures, retries_end onePage config reachable⟩

end Schtest.Shared
