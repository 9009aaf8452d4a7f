import Schtest.Shared.Bump
import Schtest.Transition.Linearizable

/-!
# Concurrent allocations as one bump allocator

Calls of `alloc` load, check and exchange the position concurrently and start
over where an exchange fails.  To its callers the allocator is nevertheless one
whose calls are made one at a time.  A call that claims a block takes effect
with its exchange, and a call that is refused with the load of the position
that was too high.
-/

namespace Schtest.Shared

open Schtest.Transition

universe u

instance : DecidableEq Layout := fun a b =>
  decidable_of_iff (a.size = b.size ∧ a.align = b.align) <| by
    cases a
    cases b
    simp

/-- An allocator of `size` bytes: a block is taken from the next multiple of its alignment if
it ends within the memory, and is refused otherwise. -/
def bump (size : Nat) : Transition.Object Nat Layout (Option Nat) where
  init := 0
  apply next layout :=
    if roundUp next layout.align.toNat + layout.size.toNat ≤ size then
      (some (roundUp next layout.align.toNat),
        roundUp next layout.align.toNat + layout.size.toNat)
    else (none, next)

/-- The bounds check of `alloc` refuses a block at the loaded position. -/
def Refuses (memfd : MemFd) (layout : Layout) (current : U64) : Prop :=
  memfd.size < alignUp current layout.align + layout.size

instance (memfd : MemFd) (layout : Layout) (current : U64) :
    Decidable (Refuses memfd layout current) :=
  inferInstanceAs (Decidable (_ < _))

theorem bump_apply_of_refuses {memfd : MemFd} {layout : Layout} {current : U64}
    (bounded : current.toNat ≤ memfd.size.toNat) (refuses : Refuses memfd layout current) :
    (bump memfd.size.toNat).apply current.toNat layout = (none, current.toNat) := by
  have small := bounded.trans memfd.fits
  rw [Refuses, BitVec.lt_def, layout.alignUp_add_size small, (layout.alignUp_toNat small).2]
    at refuses
  exact if_neg (Nat.not_le.mpr refuses)

theorem bump_apply_of_fits {memfd : MemFd} {layout : Layout} {current : U64}
    (bounded : current.toNat ≤ memfd.size.toNat) (fits : ¬ Refuses memfd layout current) :
    (bump memfd.size.toNat).apply current.toNat layout =
      (some (alignUp current layout.align).toNat,
        (alignUp current layout.align + layout.size).toNat) := by
  have small := bounded.trans memfd.fits
  rw [Refuses, BitVec.lt_def, layout.alignUp_add_size small, (layout.alignUp_toNat small).2,
    Nat.not_lt] at fits
  rw [layout.alignUp_add_size small, (layout.alignUp_toNat small).2]
  exact if_pos fits

variable {ι : Type u} [DecidableEq ι]

/-- The calls of every thread are numbered. -/
abbrev AllocHistory (ι : Type u) :=
  List (CallEvent (ι × Nat) Layout (Option Nat))

/-- The number of calls of a thread that have ended. -/
def finished (tid : ι) (history : AllocHistory ι) : Nat :=
  history.countP fun
    | .respond id _ => decide (id.1 = tid)
    | .invoke _ _ => false

/-- What a call has returned, once it has. -/
def AllocState.answer : AllocState → Option (Option Nat)
  | .running _ => none
  | .returned result => some (result.map BitVec.toNat)

/-- What a step adds to the history. -/
def observeAlloc (memfd : MemFd) (config : Threads ι BumpAllocator Allocating)
    (action : ι × Unit) (_ : Threads ι BumpAllocator Allocating) (history : AllocHistory ι) :
    AllocHistory ι :=
  let thread := config.locals action.1
  let id := (action.1, finished action.1 history)
  match thread.layouts with
  | [] => history
  | layout :: _ =>
      endCall id (allocStep memfd layout config.shared.next thread.pc).state.answer
        (beginCall id layout history)

/-- The threads together with the history of their calls. -/
abbrev observedAllocSystem (ι : Type u) [DecidableEq ι] (memfd : MemFd) :
    System (Threads ι BumpAllocator Allocating × AllocHistory ι) (ι × Unit) :=
  (allocSystem ι memfd).recorded [] (observeAlloc memfd)

theorem finished_beginCall (tid : ι) (id : ι × Nat) (layout : Layout) (history : AllocHistory ι) :
    finished tid (beginCall id layout history) = finished tid history := by
  unfold beginCall
  split
  · rfl
  · simp [finished]

theorem finished_endCall (tid : ι) (id : ι × Nat) (answer : Option (Option Nat))
    (history : AllocHistory ι) :
    finished tid (endCall id answer history) =
      finished tid history + if answer.isSome ∧ id.1 = tid then 1 else 0 := by
  cases answer with
  | none => simp [endCall]
  | some given => simp [endCall, finished, List.countP_cons]

/-! ## Points -/

open Mark

/-- Where a call has its point. -/
def AllocPc.Pointed (pc : AllocPc) (memfd : MemFd) (id : ι × Nat) (layout : Layout)
    (marks : List (Mark (ι × Nat) Layout (Option Nat))) : Prop :=
  match pc with
  | .load | .exchange _ _ => ∀ point ∈ order marks, point.id ≠ id
  | .check current =>
      (Refuses memfd layout current → ⟨id, layout, none⟩ ∈ order marks) ∧
        (¬ Refuses memfd layout current → ∀ point ∈ order marks, point.id ≠ id)

/-- Where a call has its point after a step. -/
def AllocState.Pointed (state : AllocState) (memfd : MemFd) (id : ι × Nat) (layout : Layout)
    (marks : List (Mark (ι × Nat) Layout (Option Nat))) : Prop :=
  match state with
  | .running pc => pc.Pointed memfd id layout marks
  | .returned result => ⟨id, layout, result.map BitVec.toNat⟩ ∈ order marks

theorem AllocPc.Pointed.congr {pc : AllocPc} {memfd : MemFd} {id : ι × Nat} {layout : Layout}
    {marks marksNext : List (Mark (ι × Nat) Layout (Option Nat))}
    (pointed : pc.Pointed memfd id layout marks)
    (same : ∀ point, point.id = id → (point ∈ order marksNext ↔ point ∈ order marks)) :
    pc.Pointed memfd id layout marksNext := by
  have unmarked : (∀ point ∈ order marks, point.id ≠ id) →
      ∀ point ∈ order marksNext, point.id ≠ id :=
    fun none point has isOwn => none point ((same point isOwn).mp has) isOwn
  cases pc with
  | load => exact unmarked pointed
  | exchange current aligned => exact unmarked pointed
  | check current =>
      constructor
      · exact fun refuses => (same _ rfl).mpr (pointed.1 refuses)
      · exact fun fits => unmarked (pointed.2 fits)

theorem AllocState.Pointed.congr {state : AllocState} {memfd : MemFd} {id : ι × Nat}
    {layout : Layout} {marks marksNext : List (Mark (ι × Nat) Layout (Option Nat))}
    (pointed : state.Pointed memfd id layout marks)
    (same : ∀ point, point.id = id → (point ∈ order marksNext ↔ point ∈ order marks)) :
    state.Pointed memfd id layout marksNext := by
  cases state with
  | running pc => exact AllocPc.Pointed.congr pointed same
  | returned result => exact (same _ rfl).mpr pointed

/-- A call that returns has the point of its answer. -/
theorem AllocState.Pointed.answered {state : AllocState} {memfd : MemFd} {id : ι × Nat}
    {layout : Layout} {marks : List (Mark (ι × Nat) Layout (Option Nat))}
    (pointed : state.Pointed memfd id layout marks) {given : Option Nat}
    (returned : state.answer = some given) : ⟨id, layout, given⟩ ∈ order marks := by
  cases state with
  | running pc => contradiction
  | returned result =>
      cases returned
      exact pointed

/-- A step of a call marks at most one point, and the allocator does what the step does. -/
theorem exists_allocPoint {memfd : MemFd} {layout : Layout} {next : U64} {pc : AllocPc}
    {callers : ι → Caller Layout (Option Nat)} {tid : ι}
    {marks : List (Mark (ι × Nat) Layout (Option Nat))}
    (bounded : next.toNat ≤ memfd.size.toNat) (valid : pc.Valid memfd layout)
    (attended : Attended (bump memfd.size.toNat) callers marks)
    (position : (bump memfd.size.toNat).after (order marks) = next.toNat)
    (running : (callers tid).answer = none)
    (invoked : .invoke (tid, (callers tid).index) layout ∈ history marks)
    (pointed : pc.Pointed memfd (tid, (callers tid).index) layout marks) :
    ∃ marksNext, AddsPoint (tid, (callers tid).index) layout marks marksNext ∧
      Attended (bump memfd.size.toNat) callers marksNext ∧
      (bump memfd.size.toNat).after (order marksNext) =
        (allocStep memfd layout next pc).next.toNat ∧
      (allocStep memfd layout next pc).state.Pointed memfd (tid, (callers tid).index) layout
        marksNext := by
  cases pc with
  | load =>
      by_cases refuses : Refuses memfd layout next
      · have applied := bump_apply_of_refuses bounded refuses
        rw [← position] at applied
        obtain ⟨attendedNext, afterNext⟩ := attended.point running invoked
          (fun point has isOwn => absurd isOwn (pointed point has)) applied
        refine ⟨_, Or.inr ⟨none, rfl⟩, attendedNext, afterNext.trans position, ?_⟩
        constructor
        · exact fun _ => mem_order_point.mpr (Or.inl rfl)
        · exact fun fits => absurd refuses fits
      · refine ⟨marks, Or.inl rfl, attended, position, ?_⟩
        constructor
        · exact fun isRefused => absurd isRefused refuses
        · exact fun _ => pointed
  | check current =>
      dsimp only [allocStep]
      split
      · rename_i refuses
        exact ⟨marks, Or.inl rfl, attended, position, pointed.1 refuses⟩
      · rename_i fits
        exact ⟨marks, Or.inl rfl, attended, position, pointed.2 fits⟩
  | exchange current aligned =>
      obtain ⟨_, rfl, fits⟩ := valid
      dsimp only [allocStep]
      split
      · rename_i unchanged
        subst unchanged
        have applied := bump_apply_of_fits bounded (BitVec.not_lt.mpr fits)
        rw [← position] at applied
        obtain ⟨attendedNext, afterNext⟩ := attended.point running invoked
          (fun point has isOwn => absurd isOwn (pointed point has)) applied
        exact ⟨_, Or.inr ⟨_, rfl⟩, attendedNext, afterNext, mem_order_point.mpr (Or.inl rfl)⟩
      · exact ⟨marks, Or.inl rfl, attended, position, pointed⟩

/-! ## Runs -/

/-- What a thread is doing, as a caller of the allocator. -/
def Allocating.caller (finished : Nat) (thread : Allocating) : Caller Layout (Option Nat) :=
  ⟨finished, thread.layouts.head?, none⟩

/-- A log of the threads with the points of their calls, after which the allocator stands where
the position does. -/
structure Linked (memfd : MemFd) (config : Threads ι BumpAllocator Allocating)
    (marks : List (Mark (ι × Nat) Layout (Option Nat))) : Prop where
  attended : Attended (bump memfd.size.toNat)
    (fun tid => (config.locals tid).caller (finished tid (history marks))) marks
  position : (bump memfd.size.toNat).after (order marks) = config.shared.next.toNat
  pointed : ∀ tid layout rest, (config.locals tid).layouts = layout :: rest →
    (config.locals tid).pc.Pointed memfd (tid, finished tid (history marks)) layout marks

/-- Inversion of a thread's step: the call goes on, or it returns. -/
theorem Allocating.exists_allocStep {memfd : MemFd} {allocator allocatorNext : BumpAllocator}
    {thread next : Allocating} (step : thread.step memfd allocator = some (allocatorNext, next)) :
    ∃ layout rest, thread.layouts = layout :: rest ∧
      allocatorNext.next = (allocStep memfd layout allocator.next thread.pc).next ∧
      ((∃ pc, (allocStep memfd layout allocator.next thread.pc).state = .running pc ∧
          next.layouts = layout :: rest ∧ next.pc = pc) ∨
        ∃ result, (allocStep memfd layout allocator.next thread.pc).state = .returned result ∧
          next.layouts = rest ∧ next.pc = .load) := by
  unfold Allocating.step at step
  cases layoutsEq : thread.layouts with
  | nil =>
      rw [layoutsEq] at step
      contradiction
  | cons layout rest =>
      rw [layoutsEq] at step
      refine ⟨layout, rest, rfl, ?_⟩
      dsimp only at step
      split at step
      · rename_i pc running
        cases step
        exact ⟨rfl, Or.inl ⟨pc, running, rfl, rfl⟩⟩
      · rename_i result returned
        cases step
        exact ⟨rfl, Or.inr ⟨result, returned, rfl, rfl⟩⟩

/-- A step of a call begins it, marks its point and ends it, as far as it does. -/
theorem Linked.advance {memfd : MemFd} {config : Threads ι BumpAllocator Allocating}
    {marks : List (Mark (ι × Nat) Layout (Option Nat))} {tid : ι} {layout : Layout}
    {rest : List Layout} (linked : Linked memfd config marks)
    (layoutsEq : (config.locals tid).layouts = layout :: rest)
    (bounded : config.shared.next.toNat ≤ memfd.size.toNat)
    (valid : (config.locals tid).pc.Valid memfd layout) {out : AllocOutcome}
    (outEq : allocStep memfd layout config.shared.next (config.locals tid).pc = out) :
    ∃ marksEnd, history marksEnd = endCall (tid, finished tid (history marks)) out.state.answer
        (beginCall (tid, finished tid (history marks)) layout (history marks)) ∧
      Attended (bump memfd.size.toNat)
        (Function.update (fun tid => (config.locals tid).caller (finished tid (history marks))) tid
          ⟨finished tid (history marks), some layout, out.state.answer⟩) marksEnd ∧
      (bump memfd.size.toNat).after (order marksEnd) = out.next.toNat ∧
      out.state.Pointed memfd (tid, finished tid (history marks)) layout marksEnd ∧
      ∀ other, other ≠ tid → ∀ first later, (config.locals other).layouts = first :: later →
        (config.locals other).pc.Pointed memfd (other, finished other (history marks)) first
          marksEnd := by
  have making : ((config.locals tid).caller (finished tid (history marks))).op = some layout := by
    rw [Allocating.caller, layoutsEq]
    rfl
  obtain ⟨marksBegun, historyBegun, orderBegun, attendedBegun, invoked⟩ :=
    linked.attended.begin making rfl
  obtain ⟨marksNext, addsPoint, attendedNext, position, pointed⟩ :=
    exists_allocPoint bounded valid attendedBegun (by rw [orderBegun, linked.position]) rfl invoked
      ((linked.pointed tid layout rest layoutsEq).congr fun point _ => by rw [orderBegun])
  rw [outEq] at position pointed
  obtain ⟨marksEnd, historyEnd, orderEnd, attendedEnd⟩ :=
    attendedNext.finish out.state.answer rfl fun given returned => pointed.answered returned
  rw [making] at attendedEnd
  rw [addsPoint.history_eq, historyBegun] at historyEnd
  refine ⟨marksEnd, historyEnd, attendedEnd, by rw [orderEnd, position], ?_, ?_⟩
  · exact pointed.congr fun point _ => by rw [orderEnd]
  · intro other isOther first later firstEq
    apply (linked.pointed other first later firstEq).congr
    intro point isOwn
    rw [orderEnd, ← orderBegun]
    apply addsPoint.mem_order_iff
    rw [isOwn]
    exact fun equal => isOther (congrArg Prod.fst equal)

/-- A step of the threads keeps the log. -/
theorem Linked.step {memfd : MemFd} {config next : Threads ι BumpAllocator Allocating}
    {marks : List (Mark (ι × Nat) Layout (Option Nat))} {action : ι × Unit}
    (linked : Linked memfd config marks) (reachable : (allocSystem ι memfd).Reachable config)
    (step : (allocSystem ι memfd).step config action = some next) :
    ∃ marksNext, history marksNext = observeAlloc memfd config action next (history marks) ∧
      Linked memfd next marksNext := by
  obtain ⟨tid, _⟩ := action
  obtain ⟨packed, valid⟩ := packed_of_reachable reachable
  obtain ⟨shared, thread, threadStep, rfl⟩ := Program.system_step_eq_some_iff.mp step
  obtain ⟨layout, rest, layoutsEq, nextEq, went⟩ := Allocating.exists_allocStep threadStep
  obtain ⟨marksEnd, historyEnd, attended, position, pointed, pointedOther⟩ :=
    linked.advance layoutsEq packed.bounded ((valid tid).2 layout rest layoutsEq) rfl
  have count : ∀ other, finished other (history marksEnd) = finished other (history marks) +
      if (allocStep memfd layout config.shared.next (config.locals tid).pc).state.answer.isSome ∧
        tid = other then 1 else 0 := by
    intro other
    rw [historyEnd, finished_endCall, finished_beginCall]
  have countOther : ∀ other, other ≠ tid →
      finished other (history marksEnd) = finished other (history marks) := by
    intro other isOther
    rw [count, if_neg (fun both => isOther both.2.symm), Nat.add_zero]
  refine ⟨marksEnd, ?_, ?_⟩
  · rw [historyEnd]
    simp only [observeAlloc, layoutsEq]
  · rcases went with ⟨pc, state, layoutsNext, pcNext⟩ | ⟨result, state, layoutsNext, pcNext⟩
    · have countOwn : finished tid (history marksEnd) = finished tid (history marks) := by
        rw [count, state]
        rfl
      rw [state] at attended pointed
      constructor
      case attended =>
        convert attended using 1
        funext other
        dsimp only
        by_cases isOwn : other = tid
        · subst isOwn
          rw [Function.update_self, Function.update_self, countOwn, Allocating.caller, layoutsNext]
          rfl
        · rw [Function.update_of_ne isOwn, Function.update_of_ne isOwn, countOther other isOwn]
      case position => rw [position, nextEq]
      case pointed =>
        intro other first later firstEq
        dsimp only at firstEq ⊢
        by_cases isOwn : other = tid
        · subst isOwn
          rw [Function.update_self] at firstEq ⊢
          cases layoutsNext.symm.trans firstEq
          rw [pcNext, countOwn]
          exact pointed
        · rw [Function.update_of_ne isOwn] at firstEq ⊢
          rw [countOther other isOwn]
          exact pointedOther other isOwn first later firstEq
    · have countOwn : finished tid (history marksEnd) = finished tid (history marks) + 1 := by
        rw [count, state]
        exact congrArg _ (if_pos ⟨rfl, rfl⟩)
      have retired := attended.retire ((congrArg Caller.answer
        (Function.update_self tid _ _)).trans (congrArg AllocState.answer state)) rest.head?
      constructor
      case attended =>
        convert retired using 1
        funext other
        dsimp only
        by_cases isOwn : other = tid
        · subst isOwn
          rw [Function.update_self, Function.update_self, Function.update_self, countOwn,
            Allocating.caller, layoutsNext]
        · rw [Function.update_of_ne isOwn, Function.update_of_ne isOwn,
            Function.update_of_ne isOwn, countOther other isOwn]
      case position => rw [position, nextEq]
      case pointed =>
        intro other first later firstEq
        dsimp only at firstEq ⊢
        by_cases isOwn : other = tid
        · subst isOwn
          rw [Function.update_self, pcNext, countOwn]
          have unmarked := attended.unmarked_next other
          rw [Function.update_self] at unmarked
          exact unmarked
        · rw [Function.update_of_ne isOwn] at firstEq ⊢
          rw [countOther other isOwn]
          exact pointedOther other isOwn first later firstEq

/-- Every record of a run has a log with points. -/
theorem exists_linked {memfd : MemFd} {state : Threads ι BumpAllocator Allocating × AllocHistory ι}
    (reachable : (observedAllocSystem ι memfd).Reachable state) :
    ∃ marks, history marks = state.2 ∧ Linked memfd state.1 marks := by
  apply reachable.invariant fun state =>
    ∃ marks, history marks = state.2 ∧ Linked memfd state.1 marks
  · rintro ⟨config, calls⟩ ⟨⟨shared, localInit⟩, rfl⟩
    refine ⟨[], rfl, ?_⟩
    constructor
    case attended => exact Attended.nil fun _ => ⟨rfl, rfl⟩
    case position =>
      change 0 = config.shared.next.toNat
      rw [show config.shared = .new from shared]
      rfl
    case pointed =>
      intro tid _ _ _
      rw [(localInit tid).1]
      exact fun _ has => absurd has List.not_mem_nil
  · rintro state action next before step ⟨marks, same, linked⟩
    obtain ⟨moved, kept⟩ := System.recorded_step_eq_some_iff.mp step
    obtain ⟨marksNext, historyNext, linkedNext⟩ := linked.step before.of_recorded moved
    exact ⟨marksNext, by rw [historyNext, same, kept], linkedNext⟩

/-- The calls of the history, made one at a time on one allocator. -/
structure AllocsLinearized (memfd : MemFd) (config : Threads ι BumpAllocator Allocating)
    (calls : AllocHistory ι) : Prop where
  /-- There is an order of the calls, and the allocator ends where `used` stands. -/
  order : ∃ order, (bump memfd.size.toNat).Linearizes calls order ∧
    (bump memfd.size.toNat).after order = config.shared.used.toNat
  /-- The calls of one thread do not overlap. -/
  sequential : ∀ tid index layout, .invoke (tid, index + 1) layout ∈ calls →
    Precedes calls (tid, index) (tid, index + 1)

/-- For any number of threads, any layouts and any interleaving, `alloc` is linearizable. -/
theorem allocs_linearizable {memfd : MemFd} {config : Threads ι BumpAllocator Allocating}
    {calls : AllocHistory ι}
    (reachable : (observedAllocSystem ι memfd).Reachable (config, calls)) :
    AllocsLinearized memfd config calls := by
  obtain ⟨marks, same, linked⟩ := exists_linked reachable
  obtain rfl : history marks = calls := same
  constructor
  case order => exact ⟨Mark.order marks, linked.attended.wellMarked.linearizes, linked.position⟩
  case sequential => exact linked.attended.sequential

/-- Both first calls overlap; the second thread loses an exchange, and then lacks room. -/
def lostExchangeCalls (first second third : Layout) : AllocHistory (Fin 2) :=
  [.respond (1, 1) none, .invoke (1, 1) third, .respond (1, 0) (some 128),
    .respond (0, 0) (some 0), .invoke (1, 0) second, .invoke (0, 0) first]

theorem allocs_linearizable_lostExchange :
    ∃ (config : Threads (Fin 2) BumpAllocator Allocating) (first second third : Layout),
      twoThreads 0 = [first] ∧ twoThreads 1 = [second, third] ∧
        AllocsLinearized onePage config (lostExchangeCalls first second third) := by
  have initial : (observedAllocSystem (Fin 2) onePage).init
      (⟨.new, fun tid => ⟨twoThreads tid, .load, 0⟩⟩, []) := ⟨⟨rfl, fun _ => ⟨rfl, rfl⟩⟩, rfl⟩
  obtain ⟨⟨config, calls⟩, reachable, same⟩ := System.exists_reachable_of_exec lostExchange
    (fun state : Threads (Fin 2) BumpAllocator Allocating × AllocHistory (Fin 2) =>
      decide (state.2 = lostExchangeCalls ⟨128, 8, ⟨3, rfl⟩, by decide⟩
        ⟨256, 16, ⟨4, rfl⟩, by decide⟩ ⟨4096, 1, ⟨0, rfl⟩, by decide⟩))
    initial (by decide +kernel)
  refine ⟨config, _, _, _, rfl, rfl, ?_⟩
  rw [← of_decide_eq_true same]
  exact allocs_linearizable reachable

end Schtest.Shared
