import Schtest.Shared.Layout
import Schtest.Transition.Interleaving
import Mathlib.Order.CompletePartialOrder
import Mathlib.Order.Interval.Set.Disjoint

/-!
# Bump allocator

`BumpAllocator::alloc` hands out blocks of a memfd by moving one shared
position.  Any number of threads allocate concurrently; loading the position,
checking the bounds and exchanging the position are separate steps, and a
failed exchange starts over.  Pointers are offsets from the start of the
mapping.
-/

namespace Schtest.Shared

open Schtest.Transition

universe u

/-! ## The allocator -/

/-- A memfd that could be created. -/
structure MemFd where
  size : U64
  fits : size.toNat ≤ ISIZE_MAX

/-- The size `MemFd::create` asks for: `ftruncate` refuses one that is negative
as an `i64`, and an empty mapping panics. -/
def MemFd.create (pageSize size : U64) : Option MemFd :=
  let roundedUp := alignUp size pageSize
  if fits : roundedUp.toNat ≤ ISIZE_MAX then
    if roundedUp = 0 then none else some ⟨roundedUp, fits⟩
  else none

/-- Where a call of `alloc` is. -/
inductive AllocPc
  /-- About to load the position. -/
  | load
  /-- About to align the loaded position and to check the bounds. -/
  | check (current : U64)
  /-- About to exchange the position. -/
  | exchange (current aligned : U64)
  deriving DecidableEq, Repr

/-- How a call stands after a step: a null pointer is `none`. -/
inductive AllocState
  | running (pc : AllocPc)
  | returned (result : Option U64)
  deriving DecidableEq, Repr

/-- The result of one step: the new position, and whether the step stored it. -/
structure AllocOutcome where
  next : U64
  stored : Bool
  state : AllocState
  deriving DecidableEq, Repr

/-- One atomic step of `alloc(layout)`. -/
def allocStep (memfd : MemFd) (layout : Layout) (next : U64) : AllocPc → AllocOutcome
  | .load => ⟨next, false, .running (.check next)⟩
  | .check current =>
      let aligned := alignUp current layout.align
      if memfd.size < aligned + layout.size then ⟨next, false, .returned none⟩
      else ⟨next, false, .running (.exchange current aligned)⟩
  | .exchange current aligned =>
      if next = current then ⟨aligned + layout.size, true, .returned (some aligned)⟩
      else ⟨next, false, .running .load⟩

/-! ## Threads -/

/-- A finished call, with the number of times it has stored the position. -/
structure Allocation where
  layout : Layout
  result : Option U64
  stores : Nat

/-- The bytes of the returned block. -/
def Allocation.bytes (allocation : Allocation) : Set Nat :=
  match allocation.result with
  | some offset => Set.Ico offset.toNat (offset.toNat + allocation.layout.size.toNat)
  | none => ∅

/-- A thread that allocates these layouts, the first of which is in progress. -/
structure Allocating where
  layouts : List Layout
  pc : AllocPc
  stores : Nat

/-- The allocator with the finished calls, newest first. -/
structure BumpAllocator where
  next : U64
  log : List Allocation

/-- `BumpAllocator::new`, once the memfd is created. -/
def BumpAllocator.new : BumpAllocator where
  next := 0
  log := []

/-- `used()`. -/
def BumpAllocator.used (allocator : BumpAllocator) : U64 :=
  allocator.next

/-- `available()`. -/
def BumpAllocator.available (allocator : BumpAllocator) (memfd : MemFd) : U64 :=
  memfd.size - allocator.used

/-- One step of a thread. -/
def Allocating.step (memfd : MemFd) (allocator : BumpAllocator) (thread : Allocating) :
    Option (BumpAllocator × Allocating) :=
  match thread.layouts with
  | [] => none
  | layout :: rest =>
      let out := allocStep memfd layout allocator.next thread.pc
      let stores := thread.stores + out.stored.toNat
      match out.state with
      | .running pc => some (⟨out.next, allocator.log⟩, ⟨layout :: rest, pc, stores⟩)
      | .returned result =>
          some (⟨out.next, ⟨layout, result, stores⟩ :: allocator.log⟩, ⟨rest, .load, 0⟩)

/-- Any number of threads, each allocating any layouts in a fresh memfd. -/
def allocProgram (ι : Type u) (memfd : MemFd) : Program ι BumpAllocator Allocating Unit where
  initShared allocator := allocator = .new
  initLocal _ thread := thread.pc = .load ∧ thread.stores = 0
  step _ allocator thread _ := thread.step memfd allocator

variable {ι : Type u} [DecidableEq ι]

/-- All interleavings of threads that allocate. -/
abbrev allocSystem (ι : Type u) [DecidableEq ι] (memfd : MemFd) :
    System (Threads ι BumpAllocator Allocating) (ι × Unit) :=
  (allocProgram ι memfd).system

/-! ## Blocks below the position -/

/-- All blocks lie below the position, which lies within the memfd. -/
structure BumpAllocator.Packed (memfd : MemFd) (allocator : BumpAllocator) : Prop where
  bounded : allocator.next.toNat ≤ memfd.size.toNat
  below : ∀ allocation ∈ allocator.log, ∀ offset, allocation.result = some offset →
    offset.toNat + allocation.layout.size.toNat ≤ allocator.next.toNat ∧
      allocation.layout.align.toNat ∣ offset.toNat
  disjoint : allocator.log.Pairwise fun a b => Disjoint a.bytes b.bytes
  silent : ∀ allocation ∈ allocator.log, allocation.result = none → allocation.stores = 0

/-- A call in progress has loaded a position within the memfd, and exchanges it
only for a block that fits. -/
def AllocPc.Valid (memfd : MemFd) (layout : Layout) : AllocPc → Prop
  | .load => True
  | .check current => current.toNat ≤ memfd.size.toNat
  | .exchange current aligned =>
      current.toNat ≤ memfd.size.toNat ∧ aligned = alignUp current layout.align ∧
        aligned + layout.size ≤ memfd.size

/-- The locals of a thread are valid for the layout it allocates. -/
def Allocating.Valid (memfd : MemFd) (thread : Allocating) : Prop :=
  thread.stores = 0 ∧
    ∀ layout rest, thread.layouts = layout :: rest → thread.pc.Valid memfd layout

/-- What a step of a call does to the position. -/
inductive AllocEffect (memfd : MemFd) (layout : Layout) (next : U64) : AllocOutcome → Prop
  | running {pc} : pc.Valid memfd layout →
      AllocEffect memfd layout next ⟨next, false, .running pc⟩
  | refused : AllocEffect memfd layout next ⟨next, false, .returned none⟩
  | claimed {aligned stop} : next.toNat ≤ aligned.toNat → layout.align.toNat ∣ aligned.toNat →
      stop.toNat = aligned.toNat + layout.size.toNat → stop.toNat ≤ memfd.size.toNat →
      AllocEffect memfd layout next ⟨stop, true, .returned (some aligned)⟩

theorem allocEffect_of_valid {memfd : MemFd} {layout : Layout} {next : U64} {pc : AllocPc}
    (bounded : next.toNat ≤ memfd.size.toNat) (valid : pc.Valid memfd layout) :
    AllocEffect memfd layout next (allocStep memfd layout next pc) := by
  cases pc with
  | load => exact .running bounded
  | check current =>
      dsimp only [allocStep]
      split
      · exact .refused
      · rename_i fits
        exact .running ⟨valid, rfl, BitVec.not_lt.mp fits⟩
  | exchange current aligned =>
      obtain ⟨inside, rfl, fits⟩ := valid
      dsimp only [allocStep]
      split
      · rename_i unchanged
        subst unchanged
        have small := inside.trans memfd.fits
        have position := (layout.alignUp_toNat small).2
        refine .claimed ?_ ?_ (layout.alignUp_add_size small) (BitVec.le_def.mp fits)
        · rw [position]
          exact le_roundUp layout.align_pos _
        · rw [position]
          exact dvd_roundUp _ _
      · exact .running trivial

/-- Inversion of a thread's step. -/
theorem Allocating.step_cases {memfd : MemFd} {allocator allocatorNext : BumpAllocator}
    {thread next : Allocating} (bounded : allocator.next.toNat ≤ memfd.size.toNat)
    (valid : thread.Valid memfd)
    (step : thread.step memfd allocator = some (allocatorNext, next)) :
    ∃ layout rest out, thread.layouts = layout :: rest ∧
      AllocEffect memfd layout allocator.next out ∧
      ((∃ pc, out.state = .running pc ∧ next = ⟨layout :: rest, pc, out.stored.toNat⟩ ∧
          allocatorNext = ⟨out.next, allocator.log⟩) ∨
        ∃ result, out.state = .returned result ∧ next = ⟨rest, .load, 0⟩ ∧
          allocatorNext = ⟨out.next, ⟨layout, result, out.stored.toNat⟩ :: allocator.log⟩) := by
  obtain ⟨layouts, pc, stores⟩ := thread
  obtain ⟨rfl, validPc⟩ := valid
  unfold Allocating.step at step
  cases layouts with
  | nil => contradiction
  | cons layout rest =>
      refine ⟨layout, rest, _, rfl, allocEffect_of_valid bounded (validPc layout rest rfl), ?_⟩
      dsimp only at step
      split at step
      · rename_i pcNext running
        cases step
        exact Or.inl ⟨pcNext, running, by simp, rfl⟩
      · rename_i result returned
        cases step
        exact Or.inr ⟨result, returned, rfl, by simp⟩

/-- A refused call takes no bytes. -/
theorem BumpAllocator.Packed.refuse {memfd : MemFd} {allocator : BumpAllocator}
    (packed : allocator.Packed memfd) (layout : Layout) :
    BumpAllocator.Packed memfd ⟨allocator.next, ⟨layout, none, 0⟩ :: allocator.log⟩ := by
  constructor
  case bounded => exact packed.bounded
  case below =>
    intro allocation member offset holds
    rcases List.mem_cons.mp member with rfl | older
    · contradiction
    · exact packed.below allocation older offset holds
  case disjoint =>
    refine List.pairwise_cons.mpr ⟨fun other _ => ?_, packed.disjoint⟩
    exact Set.empty_disjoint _
  case silent =>
    intro allocation member failed
    rcases List.mem_cons.mp member with rfl | older
    · rfl
    · exact packed.silent allocation older failed

/-- A claimed block lies above the older ones. -/
theorem BumpAllocator.Packed.claim {memfd : MemFd} {allocator : BumpAllocator}
    (packed : allocator.Packed memfd) {layout : Layout} {aligned stop : U64}
    (start : allocator.next.toNat ≤ aligned.toNat)
    (multiple : layout.align.toNat ∣ aligned.toNat)
    (size : stop.toNat = aligned.toNat + layout.size.toNat)
    (inside : stop.toNat ≤ memfd.size.toNat) :
    BumpAllocator.Packed memfd ⟨stop, ⟨layout, some aligned, 1⟩ :: allocator.log⟩ := by
  have forward : allocator.next.toNat ≤ stop.toNat := by omega
  constructor
  case bounded => exact inside
  case below =>
    intro allocation member offset holds
    rcases List.mem_cons.mp member with rfl | older
    · cases holds
      exact ⟨size.ge, multiple⟩
    · obtain ⟨below, dvd⟩ := packed.below allocation older offset holds
      exact ⟨below.trans forward, dvd⟩
  case disjoint =>
    refine List.pairwise_cons.mpr ⟨fun other older => ?_, packed.disjoint⟩
    unfold Allocation.bytes
    dsimp only
    split
    · rename_i offset holds
      have below := (packed.below other older offset holds).1
      rw [disjoint_comm]
      exact Set.Ico_disjoint_Ico.mpr
        (((min_le_left _ _).trans (below.trans start)).trans (le_max_right _ _))
    · exact Set.disjoint_empty _
  case silent =>
    intro allocation member failed
    rcases List.mem_cons.mp member with rfl | older
    · contradiction
    · exact packed.silent allocation older failed

theorem BumpAllocator.Packed.step {memfd : MemFd} {allocator allocatorNext : BumpAllocator}
    {thread next : Allocating} (packed : allocator.Packed memfd) (valid : thread.Valid memfd)
    (step : thread.step memfd allocator = some (allocatorNext, next)) :
    allocatorNext.Packed memfd ∧ next.Valid memfd ∧
      allocator.next.toNat ≤ allocatorNext.next.toNat := by
  have fresh (rest : List Layout) : Allocating.Valid memfd ⟨rest, .load, 0⟩ :=
    ⟨rfl, fun _ _ _ => trivial⟩
  obtain ⟨layout, rest, out, layoutsEq, effect, ended⟩ :=
    Allocating.step_cases packed.bounded valid step
  cases effect with
  | @running pc pcValid =>
      rcases ended with ⟨_, running, rfl, rfl⟩ | ⟨_, returned, _⟩
      · cases running
        refine ⟨packed, ⟨rfl, ?_⟩, le_rfl⟩
        intro other otherRest same
        cases same
        exact pcValid
      · contradiction
  | refused =>
      rcases ended with ⟨_, running, _⟩ | ⟨_, returned, rfl, rfl⟩
      · contradiction
      · cases returned
        exact ⟨packed.refuse layout, fresh rest, le_rfl⟩
  | @claimed aligned stop start multiple size inside =>
      rcases ended with ⟨_, running, _⟩ | ⟨_, returned, rfl, rfl⟩
      · contradiction
      · cases returned
        have forward : allocator.next.toNat ≤ stop.toNat := by omega
        exact ⟨packed.claim start multiple size inside, fresh rest, forward⟩

theorem packed_of_reachable {memfd : MemFd} {config : Threads ι BumpAllocator Allocating}
    (reachable : (allocSystem ι memfd).Reachable config) :
    config.shared.Packed memfd ∧ ∀ tid, (config.locals tid).Valid memfd := by
  refine Program.noninterference (BumpAllocator.Packed memfd)
    (fun _ _ thread => thread.Valid memfd) ?_ ?_ ?_ ?_ reachable
  case refine_1 =>
    rintro allocator rfl
    exact ⟨Nat.zero_le _, by simp [BumpAllocator.new], .nil, by simp [BumpAllocator.new]⟩
  case refine_2 =>
    rintro tid allocator thread _ ⟨load, stores⟩
    refine ⟨stores, fun _ _ _ => ?_⟩
    rw [load]
    trivial
  case refine_3 =>
    intro config tid _ shared next _ packed valid step
    obtain ⟨packedNext, validNext, _⟩ := packed.step (valid tid) step
    exact ⟨packedNext, validNext⟩
  case refine_4 =>
    intro config tid _ shared next other _ _ _ valid _
    exact valid other

/-! ## Allocations never overlap -/

/-- What holds of the allocator in every reachable state. -/
structure NeverOverlaps (memfd : MemFd) (config : Threads ι BumpAllocator Allocating) : Prop where
  /-- The returned blocks are pairwise disjoint. -/
  disjoint : config.shared.log.Pairwise fun a b => Disjoint a.bytes b.bytes
  /-- They lie within the memfd. -/
  inside : ∀ allocation ∈ config.shared.log, ∀ offset, allocation.result = some offset →
    offset.toNat + allocation.layout.size.toNat ≤ memfd.size.toNat
  /-- They start at a multiple of the requested alignment. -/
  aligned : ∀ allocation ∈ config.shared.log, ∀ offset, allocation.result = some offset →
    allocation.layout.align.toNat ∣ offset.toNat
  /-- The additions of a call about to check the bounds do not wrap. -/
  check : ∀ tid layout rest current, (config.locals tid).layouts = layout :: rest →
    (config.locals tid).pc = .check current →
      (current + layout.align).toNat = current.toNat + layout.align.toNat ∧
        (alignUp current layout.align + layout.size).toNat =
          (alignUp current layout.align).toNat + layout.size.toNat
  /-- Nor does the one of a call about to exchange the position. -/
  exchange : ∀ tid layout rest current aligned, (config.locals tid).layouts = layout :: rest →
    (config.locals tid).pc = .exchange current aligned →
      (aligned + layout.size).toNat = aligned.toNat + layout.size.toNat
  /-- The position does not exceed the memfd, so that `available` is exact. -/
  bounded : config.shared.next.toNat ≤ memfd.size.toNat
  available : (config.shared.available memfd).toNat + config.shared.used.toNat =
    memfd.size.toNat
  /-- No step decreases the position. -/
  monotone : ∀ action next, (allocSystem ι memfd).step config action = some next →
    config.shared.next.toNat ≤ next.shared.next.toNat
  /-- A call that returned null has not stored the position. -/
  silent : ∀ allocation ∈ config.shared.log, allocation.result = none → allocation.stores = 0

theorem allocations_never_overlap (memfd : MemFd) (config : Threads ι BumpAllocator Allocating)
    (reachable : (allocSystem ι memfd).Reachable config) : NeverOverlaps memfd config := by
  obtain ⟨packed, valid⟩ := packed_of_reachable reachable
  refine ⟨packed.disjoint, ?_, ?_, ?_, ?_, packed.bounded, ?_, ?_, packed.silent⟩
  · intro allocation member offset holds
    exact (packed.below allocation member offset holds).1.trans packed.bounded
  · intro allocation member offset holds
    exact (packed.below allocation member offset holds).2
  · intro tid layout rest current layoutsEq pcEq
    have inside := (valid tid).2 layout rest layoutsEq
    rw [pcEq] at inside
    have small : current.toNat ≤ ISIZE_MAX := inside.trans memfd.fits
    exact ⟨(layout.alignUp_toNat small).1, layout.alignUp_add_size small⟩
  · intro tid layout rest current aligned layoutsEq pcEq
    have inside := (valid tid).2 layout rest layoutsEq
    rw [pcEq] at inside
    obtain ⟨small, rfl, _⟩ := inside
    exact layout.alignUp_add_size (small.trans memfd.fits)
  · rw [BumpAllocator.available, BumpAllocator.used,
      BitVec.toNat_sub_of_le (BitVec.le_def.mpr packed.bounded)]
    exact Nat.sub_add_cancel packed.bounded
  · rintro ⟨tid, _⟩ next step
    obtain ⟨shared, local_, threadStep, rfl⟩ := Program.system_step_eq_some_iff.mp step
    exact (packed.step (valid tid) threadStep).2.2

/-- One page, of which two threads take 128 and 256 bytes at once; what the
second thread asks for next does not fit. -/
def onePage : MemFd :=
  (MemFd.create 4096 1000).get (by decide)

/-- Two threads that allocate blocks of different alignments. -/
def twoThreads : Fin 2 → List Layout
  | 0 => [⟨128, 8, ⟨3, rfl⟩, by decide⟩]
  | 1 => [⟨256, 16, ⟨4, rfl⟩, by decide⟩, ⟨4096, 1, ⟨0, rfl⟩, by decide⟩]

/-- The second thread loses the first exchange to the first thread. -/
def lostExchange : List (Fin 2 × Unit) :=
  [0, 1, 0, 1, 0, 1, 1, 1, 1, 1, 1].map fun tid => (tid, ())

theorem allocations_never_overlap_lostExchange :
    ∃ config, (allocSystem (Fin 2) onePage).exec
        ⟨.new, fun tid => ⟨twoThreads tid, .load, 0⟩⟩ lostExchange = some config ∧
      NeverOverlaps onePage config := by
  have initial : (allocSystem (Fin 2) onePage).init
      ⟨.new, fun tid => ⟨twoThreads tid, .load, 0⟩⟩ := ⟨rfl, fun _ => ⟨rfl, rfl⟩⟩
  obtain ⟨config, run, reachable⟩ :=
    System.exists_exec_of_isSome lostExchange initial (by decide)
  exact ⟨config, run, allocations_never_overlap onePage config reachable⟩

end Schtest.Shared
