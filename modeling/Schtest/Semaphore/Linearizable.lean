import Schtest.Semaphore.Conservation
import Schtest.Transition.Linearizable

/-!
# The semaphore as one counter

Calls of `consume` and `produce` overlap, sleep, wake, retry and time out.  To
its callers the semaphore is nevertheless one counter whose calls are made one
at a time.  A call that succeeds takes effect with its exchange.  A call that
times out takes effect where it went to sleep for the last time: there the
counter refused it.
-/

namespace Schtest.Semaphore

open Schtest.Transition

universe u

/-- A counter of at most `max` tokens.  A call takes or gives its tokens if it can, and
answers whether it did. -/
def tokens (max : Nat) : Object Nat Call Bool where
  init := 0
  apply amount call :=
    if call.op.Admits max call.v.toNat amount then (true, call.op.result call.v.toNat amount)
    else (false, amount)

theorem tokens_apply_of_admits {max amount : Nat} {call : Call}
    (admits : call.op.Admits max call.v.toNat amount) :
    (tokens max).apply amount call = (true, call.op.result call.v.toNat amount) :=
  if_pos admits

theorem tokens_apply_of_not_admits {max amount : Nat} {call : Call}
    (refuses : ¬ call.op.Admits max call.v.toNat amount) :
    (tokens max).apply amount call = (false, amount) :=
  if_neg refuses

/-- A call that is refused leaves the counter alone. -/
theorem tokens_quiet {κ : Type u} {max : Nat} {call : Effected κ Call Bool}
    (refused : call.answer = false) : (tokens max).Quiet call := by
  intro amount answered
  by_cases admits : call.op.op.Admits max call.op.v.toNat amount
  · rw [tokens_apply_of_admits admits, refused] at answered
    contradiction
  · rw [tokens_apply_of_not_admits admits]

variable {S R : Nat} {ι : Type u} [DecidableEq ι]

/-- The calls of every thread are numbered. -/
abbrev History (ι : Type u) :=
  List (CallEvent (ι × Nat) Call Bool)

/-- What a step adds to the history. -/
def observe (config : Threads ι (Shared S R ι) Thread) (action : ι × Action ι)
    (next : Threads ι (Shared S R ι) Thread) (history : History ι) : History ι :=
  let thread := config.locals action.1
  let id := (action.1, thread.completed)
  match thread.calls, thread.pc.result with
  | call :: _, none => endCall id (next.locals action.1).pc.result (beginCall id call history)
  | _, _ => history

/-- The threads together with the history of their calls. -/
abbrev observedSystem (S R : Nat) (ι : Type u) [DecidableEq ι] (max : U32)
    (allowed : Call → Prop) :
    System (Threads ι (Shared S R ι) Thread × History ι) (ι × Action ι) :=
  (threadSystem S R ι max allowed).recorded [] observe

/-! ## Points -/

open Mark

/-- Where a call in this stage has its point. -/
def Stage.Pointed (stage : Stage) (id : ι × Nat) (call : Call)
    (marks : List (Mark (ι × Nat) Call Bool)) : Prop :=
  match stage with
  | .trying => ∀ point ∈ order marks, point.id = id → point.answer = false
  | .asleep => ⟨id, call, false⟩ ∈ order marks
  | .waking => ⟨id, call, true⟩ ∈ order marks
  | .returned result => ⟨id, call, result⟩ ∈ order marks

theorem Stage.Pointed.congr {stage : Stage} {id : ι × Nat} {call : Call}
    {marks marksNext : List (Mark (ι × Nat) Call Bool)} (pointed : stage.Pointed id call marks)
    (same : ∀ point, point.id = id → (point ∈ order marksNext ↔ point ∈ order marks)) :
    stage.Pointed id call marksNext := by
  cases stage with
  | trying => exact fun point has isOwn => pointed point ((same point isOwn).mp has) isOwn
  | asleep => exact (same _ rfl).mpr pointed
  | waking => exact (same _ rfl).mpr pointed
  | returned result => exact (same _ rfl).mpr pointed

theorem Pc.stage_eq_of_result {pc : Pc} {result : Bool} (returned : pc.result = some result) :
    pc.stage = .returned result := by
  rw [Pc.result_eq_some_iff.mp returned]
  rfl

/-- A call that takes a step has not returned. -/
theorem Effect.result_eq_none {call : Call} {tid : ι} {sem semNext : Semaphore S R ι}
    {pc next : Pc} {event : Option Event}
    (effect : Effect call tid sem pc semNext next event) : pc.result = none := by
  have unreturned : ∀ result, pc.stage ≠ .returned result := by
    intro result
    cases effect with
    | retry before _ _ => simp [before]
    | arm before _ _ _ => simp [before]
    | commit before _ _ => simp [before]
    | enqueue before _ _ _ _ => simp [before]
    | resume before _ _ _ => simp [before]
    | interrupt before _ _ _ => simp [before]
    | expire before _ _ _ _ => simp [before]
    | measure before _ _ => simp [before]
    | notify before _ _ _ _ => simp [before]
  exact Option.eq_none_iff_forall_ne_some.mpr fun result returned =>
    unreturned result (Pc.stage_eq_of_result returned)

/-- A step of a call marks at most one point, and the counter does what the step does. -/
theorem Effect.exists_point {max : U32} {call : Call} {tid : ι} {sem semNext : Semaphore S R ι}
    {pc next : Pc} {event : Option Event} {callers : ι → Caller Call Bool}
    {marks : List (Mark (ι × Nat) Call Bool)}
    (effect : Effect call tid sem pc semNext next event) (max_eq : sem.max = amountOf max)
    (small : call.v.toNat ≤ 0x7fffffff)
    (attended : Attended (tokens (amountOf max).toNat) callers marks)
    (amount : (tokens (amountOf max).toNat).after (order marks) = (amountOf sem.count).toNat)
    (running : (callers tid).answer = none)
    (invoked : .invoke (tid, (callers tid).index) call ∈ history marks)
    (pointed : pc.stage.Pointed (tid, (callers tid).index) call marks) :
    ∃ marksNext, AddsPoint (tid, (callers tid).index) call marks marksNext ∧
      Attended (tokens (amountOf max).toNat) callers marksNext ∧
      (tokens (amountOf max).toNat).after (order marksNext) = (amountOf semNext.count).toNat ∧
      next.stage.Pointed (tid, (callers tid).index) call marksNext := by
  have admits_iff : call.op.admits (amountOf max) call.v (amountOf sem.count) = true ↔
      call.op.Admits (amountOf max).toNat call.v.toNat (amountOf sem.count).toNat :=
    Op.admits_iff (amountOf_add_lt _ small)
  -- a call that is not done has no point, or one at which it was refused
  have refusedBefore : pc.stage = .trying → ∀ point ∈ order marks,
      point.id = (tid, (callers tid).index) → (tokens (amountOf max).toNat).Quiet point := by
    intro trying point has same
    rw [trying] at pointed
    exact tokens_quiet (pointed point has same)
  have refusedAsleep : ⟨(tid, (callers tid).index), call, false⟩ ∈ order marks →
      ∀ point ∈ order marks, point.id = (tid, (callers tid).index) → point.answer = false := by
    intro refused point has same
    rw [attended.wellMarked.eq_of_id_eq has refused same]
  cases effect with
  | retry before after _ =>
      refine ⟨marks, Or.inl rfl, attended, amount, ?_⟩
      rw [after, ← before]
      exact pointed
  | arm before after _ _ =>
      refine ⟨marks, Or.inl rfl, attended, by rw [amountOf_withWaiter, amount], ?_⟩
      rw [after, ← before]
      exact pointed
  | measure before after _ =>
      refine ⟨marks, Or.inl rfl, attended, amount, ?_⟩
      rw [after, ← before]
      exact pointed
  | resume before after _ _ =>
      refine ⟨marks, Or.inl rfl, attended, amount, ?_⟩
      rw [before] at pointed
      rw [after]
      exact refusedAsleep pointed
  | interrupt before after _ _ =>
      refine ⟨marks, Or.inl rfl, attended, amount, ?_⟩
      rw [before] at pointed
      rw [after]
      exact refusedAsleep pointed
  | expire before after _ _ _ =>
      refine ⟨marks, Or.inl rfl, attended, amount, ?_⟩
      rw [before] at pointed
      rw [after]
      exact pointed
  | notify before after _ _ _ =>
      refine ⟨marks, Or.inl rfl, attended, amount, ?_⟩
      rw [before] at pointed
      rw [after]
      exact pointed
  | commit before after admitted =>
      rw [max_eq] at admitted
      obtain ⟨stored, _, plain⟩ := commit_spec (amountOf_lt max) small admitted
      have applied := tokens_apply_of_admits (admits_iff.mp admitted)
      rw [← amount] at applied
      obtain ⟨attendedNext, afterNext⟩ :=
        attended.point running invoked (refusedBefore before) applied
      refine ⟨_, Or.inr ⟨true, rfl⟩, attendedNext, ?_, ?_⟩
      · rw [afterNext, plain, stored, amount]
      · rw [after]
        split
        · exact mem_order_point.mpr (Or.inl rfl)
        · exact mem_order_point.mpr (Or.inl rfl)
  | enqueue before after _ _ refused =>
      rw [max_eq] at refused
      have refuses : ¬ call.op.Admits (amountOf max).toNat call.v.toNat
          (amountOf sem.count).toNat := by
        rw [← admits_iff, refused]
        exact Bool.false_ne_true
      have applied := tokens_apply_of_not_admits refuses
      rw [← amount] at applied
      obtain ⟨attendedNext, afterNext⟩ :=
        attended.point running invoked (refusedBefore before) applied
      refine ⟨_, Or.inr ⟨false, rfl⟩, attendedNext, ?_, ?_⟩
      · rw [afterNext, amount]
      · rw [after]
        exact mem_order_point.mpr (Or.inl rfl)

/-! ## Runs -/

/-- What a thread is doing, as a caller of the counter. -/
def Thread.caller (thread : Thread) : Caller Call Bool :=
  ⟨thread.completed, thread.calls.head?, thread.pc.result⟩

/-- A log of the threads with the points of their calls, after which the counter stands where
the word does. -/
structure Linked (max : U32) (config : Threads ι (Shared S R ι) Thread)
    (marks : List (Mark (ι × Nat) Call Bool)) : Prop where
  attended : Attended (tokens (amountOf max).toNat) (Thread.caller ∘ config.locals) marks
  amount : (tokens (amountOf max).toNat).after (order marks) =
    (amountOf config.shared.sem.count).toNat
  pointed : ∀ tid call rest, (config.locals tid).calls = call :: rest →
    (config.locals tid).pc.stage.Pointed (tid, (config.locals tid).completed) call marks
  timed : ∀ id, .respond id false ∈ history marks →
    ∃ call, .invoke id call ∈ history marks ∧ call.timeout.isSome = true

namespace Linked

variable {max : U32} {config : Threads ι (Shared S R ι) Thread}
  {marks : List (Mark (ι × Nat) Call Bool)} {tid : ι} {call : Call} {rest : List Call}

/-- A call that has returned gives way to the next. -/
theorem retire (linked : Linked max config marks) {result : Bool}
    (returned : (config.locals tid).pc = .returned result) (rest : List Call)
    {sharedNext : Shared S R ι} (same : sharedNext.sem = config.shared.sem) :
    Linked max ⟨sharedNext, Function.update config.locals tid
      ⟨rest, .load, (config.locals tid).completed + 1⟩⟩ marks := by
  have answered : ((Thread.caller ∘ config.locals) tid).answer = some result := by
    change (config.locals tid).pc.result = some result
    rw [returned]
    rfl
  have attendedNext := linked.attended.retire answered rest.head?
  constructor
  case attended =>
    rw [Function.comp_update]
    exact attendedNext
  case amount =>
    rw [same]
    exact linked.amount
  case pointed =>
    intro other first later firstEq
    dsimp only at firstEq ⊢
    by_cases isOwn : other = tid
    · subst isOwn
      rw [Function.update_self]
      exact fun point has isNext => absurd isNext (linked.attended.unmarked_next other point has)
    · rw [Function.update_of_ne isOwn] at firstEq ⊢
      exact linked.pointed other first later firstEq
  case timed => exact linked.timed

/-- A step of a call begins it, marks its point and ends it, as far as it does. -/
theorem advance (linked : Linked max config marks)
    (callsEq : (config.locals tid).calls = call :: rest) {sem : Semaphore S R ι} {pc : Pc}
    {event : Option Event}
    (effect : Effect call tid config.shared.sem (config.locals tid).pc sem pc event)
    (max_eq : config.shared.sem.max = amountOf max) (small : call.v.toNat ≤ 0x7fffffff)
    (sharedNext : Shared S R ι) (semEq : sharedNext.sem = sem) :
    ∃ marksEnd, history marksEnd = endCall (tid, (config.locals tid).completed) pc.result
        (beginCall (tid, (config.locals tid).completed) call (history marks)) ∧
      Linked max ⟨sharedNext, Function.update config.locals tid
        ⟨call :: rest, pc, (config.locals tid).completed⟩⟩ marksEnd := by
  have running : ((Thread.caller ∘ config.locals) tid).answer = none := effect.result_eq_none
  have making : ((Thread.caller ∘ config.locals) tid).op = some call := by
    change (config.locals tid).calls.head? = some call
    rw [callsEq]
    rfl
  obtain ⟨marksBegun, historyBegun, orderBegun, attendedBegun, invoked⟩ :=
    linked.attended.begin making running
  obtain ⟨marksNext, addsPoint, attendedNext, amount, pointed⟩ :=
    effect.exists_point max_eq small attendedBegun (by rw [orderBegun, linked.amount]) running
      invoked ((linked.pointed tid call rest callsEq).congr fun point _ => by rw [orderBegun])
  obtain ⟨marksEnd, historyEnd, orderEnd, attendedEnd⟩ :=
    attendedNext.finish pc.result running fun given returned => by
      rw [Pc.stage_eq_of_result returned] at pointed
      exact pointed
  rw [addsPoint.history_eq] at historyEnd
  have begun : ∀ id op, .invoke id op ∈ history marksEnd ↔ .invoke id op ∈ history marksBegun :=
    fun id op => by rw [historyEnd, invoke_mem_endCall]
  refine ⟨marksEnd, by rw [historyEnd, historyBegun]; rfl, ?_⟩
  constructor
  case attended =>
    rw [Function.comp_update]
    rw [making] at attendedEnd
    exact attendedEnd
  case amount => rw [orderEnd, amount, semEq]
  case pointed =>
    intro other first later firstEq
    dsimp only at firstEq ⊢
    by_cases isOwn : other = tid
    · subst isOwn
      rw [Function.update_self] at firstEq ⊢
      cases firstEq
      exact pointed.congr fun point _ => by rw [orderEnd]
    · rw [Function.update_of_ne isOwn] at firstEq ⊢
      apply (linked.pointed other first later firstEq).congr
      intro point isOther
      rw [orderEnd, ← orderBegun]
      apply addsPoint.mem_order_iff
      rw [isOther]
      exact fun equal => isOwn (congrArg Prod.fst equal)
  case timed =>
    intro id has
    rw [historyEnd, mem_endCall] at has
    rcases has with ⟨result, returned, equal⟩ | old
    · cases equal
      refine ⟨call, (begun _ _).mpr invoked, ?_⟩
      rw [Option.isSome_iff_ne_none]
      exact fun untimed => effect.not_expired untimed (Pc.stage_eq_of_result returned)
    · rw [historyBegun, respond_mem_beginCall] at old
      obtain ⟨first, firstInvoked, firstTimed⟩ := linked.timed id old
      refine ⟨first, (begun _ _).mpr ?_, firstTimed⟩
      rw [historyBegun]
      exact mem_beginCall_of_mem firstInvoked

/-- A step of the threads keeps the log. -/
theorem step {action : ι × Action ι} {next : Threads ι (Shared S R ι) Thread}
    (linked : Linked max config marks)
    (reachable : (threadSystem S R ι max SmallCall).Reachable config)
    (step : (threadSystem S R ι max SmallCall).step config action = some next) :
    ∃ marksNext, history marksNext = observe config action next (history marks) ∧
      Linked max next marksNext := by
  obtain ⟨tid, action⟩ := action
  obtain ⟨balanced, accounted⟩ := accounts_of_reachable reachable
  obtain ⟨shared, thread, threadStep, rfl⟩ := Program.system_step_eq_some_iff.mp step
  obtain ⟨call, rest, callsEq, cases⟩ := Thread.step_cases threadStep
  rcases cases with ⟨result, returned, rfl, rfl⟩ | ⟨out, callStep, rfl, sharedEq⟩
  · refine ⟨marks, ?_, linked.retire returned rest rfl⟩
    have answered : (config.locals tid).pc.result = some result := by rw [returned]; rfl
    simp only [observe, callsEq, answered]
  · have small := (accounted tid).small call (by rw [callsEq]; exact List.mem_cons_self)
    have valid := (accounted tid).valid call rest callsEq
    rw [← balanced.max_eq] at valid
    have effect := (Call.effect_of_step valid callStep).1
    obtain ⟨marksEnd, historyEnd, linkedEnd⟩ :=
      linked.advance callsEq effect balanced.max_eq small shared (by rw [sharedEq])
    refine ⟨marksEnd, ?_, linkedEnd⟩
    rw [historyEnd]
    simp only [observe, callsEq, effect.result_eq_none, Function.update_self]

end Linked

/-- Every record of a run has a log with points. -/
theorem exists_linked {max : U32} {state : Threads ι (Shared S R ι) Thread × History ι}
    (reachable : (observedSystem S R ι max SmallCall).Reachable state) :
    ∃ marks, history marks = state.2 ∧ Linked max state.1 marks := by
  apply reachable.invariant fun state => ∃ marks, history marks = state.2 ∧ Linked max state.1 marks
  · rintro ⟨config, calls⟩ ⟨⟨⟨_, _, semEq, _⟩, localInit⟩, rfl⟩
    refine ⟨[], rfl, ?_⟩
    constructor
    case attended =>
      apply Attended.nil
      intro tid
      obtain ⟨_, pcEq, completedEq⟩ := localInit tid
      constructor
      · exact completedEq
      · change (config.locals tid).pc.result = none
        rw [pcEq]
        rfl
    case amount =>
      rw [semEq, new_amount]
      rfl
    case pointed =>
      intro tid _ _ _
      rw [(localInit tid).2.1]
      exact fun _ has => absurd has List.not_mem_nil
    case timed => exact fun _ has => absurd has List.not_mem_nil
  · rintro state action next before step ⟨marks, same, linked⟩
    obtain ⟨moved, kept⟩ := System.recorded_step_eq_some_iff.mp step
    obtain ⟨marksNext, historyNext, linkedNext⟩ := linked.step before.of_recorded moved
    exact ⟨marksNext, by rw [historyNext, same, kept], linkedNext⟩

/-- The calls of the history, made one at a time on a counter. -/
structure Linearized (max : U32) (config : Threads ι (Shared S R ι) Thread)
    (calls : History ι) : Prop where
  /-- There is an order of the calls, and the counter ends where the word stands. -/
  order : ∃ order, (tokens (amountOf max).toNat).Linearizes calls order ∧
    (tokens (amountOf max).toNat).after order = (amountOf config.shared.sem.count).toNat
  /-- Only a call with a timeout answers that it was refused. -/
  timed : ∀ id, .respond id false ∈ calls →
    ∃ call, .invoke id call ∈ calls ∧ call.timeout.isSome = true
  /-- The calls of one thread do not overlap. -/
  sequential : ∀ tid index call, .invoke (tid, index + 1) call ∈ calls →
    Precedes calls (tid, index) (tid, index + 1)

/-- For any number of threads, any calls and any interleaving, the semaphore is linearizable. -/
theorem calls_linearizable {max : U32} {config : Threads ι (Shared S R ι) Thread}
    {calls : History ι}
    (reachable : (observedSystem S R ι max SmallCall).Reachable (config, calls)) :
    Linearized max config calls := by
  obtain ⟨marks, same, linked⟩ := exists_linked reachable
  obtain rfl : history marks = calls := same
  constructor
  case order => exact ⟨Mark.order marks, linked.attended.wellMarked.linearizes, linked.amount⟩
  case timed => exact linked.timed
  case sequential => exact linked.attended.sequential

/-- A consumer sleeps until three of five tokens are its own, and times out waiting for more. -/
def sleeper : Fin 2 → List Call
  | 0 => [produce 5 1 none]
  | 1 => [consume 3 1 none, consume 5 1 (some 10000000)]

/-- The consumer sleeps, is woken, and times out in its second call. -/
def sleeperRun : List (Fin 2 × Action (Fin 2)) :=
  let run := fun tid => (tid, (⟨0, .run⟩ : Action (Fin 2)))
  List.replicate 4 (run 1) ++ List.replicate 3 (run 0) ++ [(0, ⟨0, .wake []⟩)] ++
    List.replicate 8 (run 1) ++ [(1, ⟨10000000, .timeout⟩)]

/-- The first call of the consumer begins first and ends last. -/
def sleeperCalls : History (Fin 2) :=
  [.respond (1, 1) false, .invoke (1, 1) (consume 5 1 (some 10000000)), .respond (1, 0) true,
    .respond (0, 0) true, .invoke (0, 0) (produce 5 1 none), .invoke (1, 0) (consume 3 1 none)]

theorem calls_linearizable_sleeper :
    ∃ config : Threads (Fin 2) (Shared 0 0 (Fin 2)) Thread,
      Linearized 10 config sleeperCalls := by
  have initial : (observedSystem 0 0 (Fin 2) 10 SmallCall).init (start 0 0 10 sleeper, []) := by
    constructor
    · apply start_init
      simp only [SmallCall]
      decide
    · rfl
  obtain ⟨⟨config, calls⟩, reachable, same⟩ := System.exists_reachable_of_exec sleeperRun
    (fun state : Threads (Fin 2) (Shared 0 0 (Fin 2)) Thread × History (Fin 2) =>
      decide (state.2 = sleeperCalls)) initial (by decide +kernel)
  obtain rfl : calls = sleeperCalls := of_decide_eq_true same
  exact ⟨config, calls_linearizable reachable⟩

end Schtest.Semaphore
