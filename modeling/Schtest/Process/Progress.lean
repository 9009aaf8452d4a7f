import Schtest.Process.Rounds

/-!
# The handshake never gets stuck

Each semaphore of a process has one consumer, which may sleep, and one
producer, which never does: whenever it produces, the token is gone.  A
consumer in the futex queue is therefore either announced by the `WAITER` bit
of an empty word, or about to be woken by the producer.  With what the phase of
the round says about the two tokens this excludes that both sides sleep.
-/

namespace Schtest.Process

open Schtest.Semaphore Schtest.Transition

universe u

/-! ## A semaphore with one consumer -/

variable {S R : Nat} {ι : Type u} [DecidableEq ι]

/-- Only the consumer sleeps on the semaphore, and a producer knows of it. -/
structure Link (sem : Semaphore S R ι) (consumer : ι) (sleeping waking : Prop) : Prop where
  queue : sem.queue = [] ∨ sem.queue = [consumer]
  asleep : consumer ∈ sem.queue → sleeping
  covered : consumer ∈ sem.queue →
    (hasWaiter sem.count = true ∧ amountOf sem.count = 0) ∨ waking

omit [DecidableEq ι] in
theorem Link.of_empty {sem : Semaphore S R ι} {consumer : ι} {sleeping waking : Prop}
    (empty : sem.queue = []) : Link sem consumer sleeping waking :=
  ⟨Or.inl empty, by simp [empty], by simp [empty]⟩

omit [DecidableEq ι] in
theorem Link.mono {sem : Semaphore S R ι} {consumer : ι} {sleeping sleeping' waking waking' : Prop}
    (link : Link sem consumer sleeping waking) (sleep : sleeping → sleeping')
    (wake : waking → waking') : Link sem consumer sleeping' waking' :=
  ⟨link.queue, fun queued => sleep (link.asleep queued),
    fun queued => (link.covered queued).imp_right wake⟩

omit [DecidableEq ι] in
/-- A consumer that is not asleep leaves an empty queue. -/
theorem Link.empty {sem : Semaphore S R ι} {consumer : ι} {sleeping waking : Prop}
    (link : Link sem consumer sleeping waking) (awake : ¬ sleeping) : sem.queue = [] := by
  rcases link.queue with empty | queued
  · exact empty
  · exact absurd (link.asleep (by simp [queued])) awake

/-- The consumer that leaves is the only one in the queue. -/
theorem Link.erase_consumer {sem : Semaphore S R ι} {consumer : ι} {sleeping waking : Prop}
    (link : Link sem consumer sleeping waking) : sem.queue.erase consumer = [] := by
  rcases link.queue with empty | queued
  · simp [empty]
  · simp [queued]

/-- A step of the consumer. -/
theorem Link.consumer_step {call : Call} {consumer : ι} {sem semNext : Semaphore S R ι}
    {pc next : Pc} {event : Option Event} {waking : Prop} (op : call.op = .consume)
    (one : call.v = 1) (effect : Effect call consumer sem pc semNext next event)
    (link : Link sem consumer (pc.stage = .asleep) waking) :
    Link semNext consumer (next.stage = .asleep) waking := by
  have trying (before : pc.stage = .trying) : sem.queue = [] :=
    link.empty (by simp [before])
  have waking (before : pc.stage = .waking) : sem.queue = [] :=
    link.empty (by simp [before])
  cases effect with
  | retry before _ _ => exact .of_empty (trying before)
  | arm before _ _ _ => exact .of_empty (trying before)
  | commit before _ _ => exact .of_empty (trying before)
  | enqueue before after _ flagged refused =>
      have empty := trying before
      have none_ : amountOf sem.count = 0 := by
        rw [op, one] at refused
        have less := of_decide_eq_false refused
        rw [BitVec.le_def] at less
        apply BitVec.eq_of_toNat_eq
        simpa using less
      exact ⟨Or.inr (by simp [empty]), fun _ => after, fun _ => Or.inl ⟨flagged, none_⟩⟩
  | resume before _ _ notQueued =>
      rcases link.queue with empty | queued
      · exact .of_empty empty
      · exact absurd (by simp [queued]) notQueued
  | interrupt _ _ _ _ => exact .of_empty link.erase_consumer
  | expire _ _ _ _ _ => exact .of_empty link.erase_consumer
  | measure before _ _ => exact .of_empty (waking before)
  | notify before _ _ remains _ =>
      rw [waking before] at remains
      exact .of_empty (List.sublist_nil.mp remains)

/-- A step of a producer that does not sleep. -/
theorem Link.producer_step {call : Call} {tid consumer : ι} {sem semNext : Semaphore S R ι}
    {pc next : Pc} {event : Option Event} {sleeping : Prop}
    (effect : Effect call tid sem pc semNext next event) (awake : pc.stage ≠ .asleep)
    (awakeNext : next.stage ≠ .asleep) (link : Link sem consumer sleeping (pc.stage = .waking)) :
    Link semNext consumer sleeping (next.stage = .waking) := by
  cases effect with
  | retry before _ _ => exact link.mono id (by simp [before])
  | arm before _ _ unflagged =>
      refine ⟨link.queue, link.asleep, fun queued => ?_⟩
      simpa [unflagged, before] using link.covered queued
  | commit before after _ =>
      refine ⟨link.queue, link.asleep, fun queued => Or.inr ?_⟩
      have flagged : hasWaiter sem.count = true := by
        simpa [before] using (link.covered queued).imp_left And.left
      rw [after, if_pos flagged]
  | enqueue _ after _ _ _ => exact absurd after awakeNext
  | resume before _ _ _ => exact absurd before awake
  | interrupt before _ _ _ => exact absurd before awake
  | expire before _ _ _ _ => exact absurd before awake
  | measure before after _ => exact ⟨link.queue, link.asleep, fun _ => Or.inr after⟩
  | notify _ _ _ _ woken =>
      refine .of_empty (List.length_eq_zero_iff.mp ?_)
      have few : sem.queue.length ≤ 1 := by
        rcases link.queue with empty | queued
        · simp [empty]
        · simp [queued]
      have some_ : 1 ≤ futexWakeCount call.wake := Nat.le_max_left _ _
      dsimp only
      omega

/-! ## Producers do not sleep -/

/-- The places of a call that leads to its exchange without waiting. -/
def Unblocked : Pc → Prop
  | .load | .commit _ | .reset | .stamp _ | .notify | .returned _ => True
  | .arm _ | .cookie _ | .wait _ _ | .asleep _ => False
  | .elapsed _ | .expired _ _ | .sample _ => False

omit [DecidableEq ι] in
theorem Unblocked.awake {pc : Pc} (unblocked : Unblocked pc) : pc.stage ≠ .asleep := by
  cases pc <;> simp_all [Unblocked, Pc.stage]

/-- `produce(1, …)` does not wait as long as the token is gone until it has
put it back. -/
theorem Unblocked.step {call : Call} {now : Nat} {tid : ι} {sem : Semaphore S R ι} {pc : Pc}
    {choice : Choice ι} {out : Outcome S R ι} (op : call.op = .produce) (one : call.v = 1)
    (capacity : sem.max = 1) (empty : pc.stage.commits = 0 → amountOf sem.count = 0)
    (unblocked : Unblocked pc) (step : call.step now tid sem pc choice = some out) :
    Unblocked out.pc := by
  cases pc with
  | load =>
      cases choice with
      | run =>
          cases step
          have admitted : call.op.admits sem.max call.v (amountOf sem.count) = true := by
            rw [op, one, capacity, empty rfl]
            decide
          simp [Call.branch, admitted, Unblocked]
      | _ => contradiction
  | commit cur =>
      cases choice with
      | run =>
          unfold Call.step at step
          dsimp only at step
          split at step
          · cases step
            dsimp only
            split <;> trivial
          · cases step
            trivial
      | fail =>
          cases step
          trivial
      | _ => contradiction
  | reset =>
      cases choice with
      | run =>
          unfold Call.step at step
          dsimp only at step
          split at step <;> cases step <;> trivial
      | _ => contradiction
  | stamp index =>
      cases choice with
      | run =>
          unfold Call.step at step
          dsimp only at step
          split at step
          · contradiction
          · cases step
            trivial
      | _ => contradiction
  | notify =>
      cases choice with
      | wake remaining =>
          unfold Call.step at step
          dsimp only at step
          split at step
          · cases step
            trivial
          · contradiction
      | _ => contradiction
  | returned result => cases choice <;> contradiction
  | _ => exact unblocked.elim

/-! ## Both semaphores of a process -/

/-- The parent sleeps on `ready`. -/
def ParentPc.Sleeping : ParentPc → Prop
  | .consume call => call.stage = .asleep
  | _ => False

/-- The parent owes the waiters of `start` a `FUTEX_WAKE`. -/
def ParentPc.Waking : ParentPc → Prop
  | .produce call => call.stage = .waking
  | _ => False

/-- The child sleeps on `start`. -/
def ChildPc.Sleeping : ChildPc → Prop
  | .start call => call.stage = .asleep
  | _ => False

/-- The child owes the waiters of `ready` a `FUTEX_WAKE`, or will never pay. -/
def ChildPc.Waking : ChildPc → Prop
  | .ready call => call.stage = .waking
  | .exited => True
  | _ => False

/-- The parent's `start.produce` is not on its way to a wait. -/
def ParentPc.Unblocked : ParentPc → Prop
  | .produce call => Process.Unblocked call
  | _ => True

/-- The child's `ready.produce` is not on its way to a wait. -/
def ChildPc.Unblocked : ChildPc → Prop
  | .ready call => Process.Unblocked call
  | _ => True

/-- The producers do not sleep, and the consumers are not forgotten. -/
structure Handshake.Awake (state : Handshake) : Prop where
  parent : state.parent.Unblocked
  child : state.proc.child.pc.Unblocked
  ready : Link state.proc.ready .parent state.parent.Sleeping state.proc.child.pc.Waking
  start : Link state.proc.start .child state.proc.child.pc.Sleeping state.parent.Waking
  failed : state.parent = .failed → state.proc.child.pc = .exited

theorem Handshake.Awake.child_step {state : Handshake} {barrier : Barrier U32}
    {procNext : Process} (awake : state.Awake) (wellFormed : state.WellFormed)
    (follows : Follows state barrier) (effect : ChildEffect state.proc procNext) :
    Awake { state with proc := procNext } := by
  obtain ⟨⟨⟨pc, calls, returns⟩, start, ready, iters⟩, parent, todo⟩ := state
  obtain ⟨startMax, readyMax, childValid, -⟩ := wellFormed
  obtain ⟨readyToken, -, -, childAt, -⟩ := follows
  obtain ⟨parentUnblocked, childUnblocked, readyLink, startLink, failed⟩ := awake
  dsimp only at startMax readyMax childValid readyToken childAt
  dsimp only at parentUnblocked childUnblocked readyLink startLink failed
  cases effect with
  | work atPc => exact ⟨parentUnblocked, childUnblocked, readyLink, startLink, failed⟩
  | call atPc =>
      cases atPc
      exact ⟨parentUnblocked, trivial, readyLink.mono id False.elim,
        startLink.mono False.elim id, fun dead => absurd (failed dead) (by simp)⟩
  | exit born living =>
      have kept : ready.queue.erase .child = ready.queue := by
        rcases readyLink.queue with empty | queued
        · simp [empty]
        · simp [queued]
      refine ⟨parentUnblocked, trivial, ?_, .of_empty startLink.erase_consumer, fun _ => rfl⟩
      refine ⟨?_, ?_, fun _ => Or.inr trivial⟩
      · simpa [exitChild, kept] using readyLink.queue
      · simpa [exitChild, kept] using readyLink.asleep
  | ready atPc callStep =>
      cases atPc
      rename_i call choice out
      obtain ⟨effect, _, _⟩ := InCall.step childValid readyMax callStep
      have empty : call.stage.commits = 0 → amountOf ready.count = 0 := by
        intro before
        simp only [Child.At, if_pos before] at childAt
        rw [readyToken, childAt.1]
        rfl
      have unblockedNext := Unblocked.step rfl rfl readyMax empty childUnblocked callStep
      exact ⟨parentUnblocked, unblockedNext,
        readyLink.producer_step effect childUnblocked.awake unblockedNext.awake,
        startLink.mono False.elim id, fun dead => absurd (failed dead) (by simp)⟩
  | readied atPc =>
      cases atPc
      exact ⟨parentUnblocked, trivial, readyLink.mono id (by simp [ChildPc.Waking, Pc.stage]),
        startLink.mono False.elim id, fun dead => absurd (failed dead) (by simp)⟩
  | start atPc callStep =>
      cases atPc
      obtain ⟨effect, _, _⟩ := InCall.step childValid startMax callStep
      exact ⟨parentUnblocked, trivial, readyLink.mono id False.elim,
        startLink.consumer_step rfl rfl effect, fun dead => absurd (failed dead) (by simp)⟩
  | started atPc =>
      cases atPc
      exact ⟨parentUnblocked, trivial, readyLink.mono id False.elim,
        startLink.mono (by simp [ChildPc.Sleeping, Pc.stage]) id,
        fun dead => absurd (failed dead) (by simp)⟩
  | swap atPc =>
      cases atPc
      exact ⟨parentUnblocked, trivial, readyLink.mono id False.elim,
        startLink.mono False.elim id, fun dead => absurd (failed dead) (by simp)⟩

theorem Handshake.Awake.parent_step {proc procNext : Process} {parent parentNext : ParentPc}
    {op : ParentOp} {rest : List ParentOp} {barrier : Barrier U32}
    (awake : Awake ⟨proc, parent, op :: rest⟩) (wellFormed : WellFormed ⟨proc, parent, op :: rest⟩)
    (follows : Follows ⟨proc, parent, op :: rest⟩ barrier)
    (effect : ParentEffect proc op parent procNext parentNext) :
    Awake ⟨procNext, parentNext, remainingOps parentNext (op :: rest)⟩ := by
  obtain ⟨⟨pc, calls, returns⟩, start, ready, iters⟩ := proc
  obtain ⟨startMax, readyMax, -, parentValid⟩ := wellFormed
  have startToken := follows.start
  have parentAt := follows.parent
  obtain ⟨parentUnblocked, childUnblocked, readyLink, startLink, failed⟩ := awake
  dsimp only at startMax readyMax parentValid startToken parentAt
  dsimp only at parentUnblocked childUnblocked readyLink startLink failed
  cases effect with
  | create atPc opEq =>
      subst atPc opEq
      obtain rfl : pc = .unborn := follows.of_create.1
      exact ⟨trivial, trivial, readyLink.mono False.elim False.elim,
        startLink.mono False.elim False.elim, by simp⟩
  | start atPc opEq =>
      subst atPc
      exact ⟨trivial, childUnblocked, readyLink.mono False.elim id, startLink.mono id False.elim,
        by simp⟩
  | wait atPc opEq =>
      subst atPc
      exact ⟨trivial, childUnblocked, readyLink.mono False.elim id, startLink.mono id False.elim,
        by simp⟩
  | store atPc =>
      subst atPc
      exact ⟨trivial, childUnblocked, readyLink.mono False.elim id, startLink.mono id False.elim,
        by simp⟩
  | produce atPc callStep =>
      subst atPc
      rename_i call choice out
      obtain ⟨effect, _, _⟩ := InCall.step parentValid startMax callStep
      have empty : call.stage.commits = 0 → amountOf start.count = 0 := by
        intro before
        simp only [ParentPc.At, if_pos before] at parentAt
        rw [startToken, parentAt.1]
        rfl
      have unblockedNext := Unblocked.step rfl rfl startMax empty parentUnblocked callStep
      exact ⟨unblockedNext, childUnblocked, readyLink.mono False.elim id,
        startLink.producer_step effect parentUnblocked.awake unblockedNext.awake, by simp⟩
  | produced atPc =>
      subst atPc
      exact ⟨trivial, childUnblocked, readyLink.mono False.elim id,
        startLink.mono id (by simp [ParentPc.Waking, Pc.stage]), by simp⟩
  | consume atPc callStep =>
      subst atPc
      obtain ⟨effect, _, _⟩ := InCall.step parentValid readyMax callStep
      exact ⟨trivial, childUnblocked, readyLink.consumer_step rfl rfl effect,
        startLink.mono id False.elim, by simp⟩
  | consumed atPc =>
      subst atPc
      exact ⟨trivial, childUnblocked, readyLink.mono (by simp [ParentPc.Sleeping, Pc.stage]) id,
        startLink.mono id False.elim, by simp⟩
  | expired atPc =>
      subst atPc
      exact ⟨trivial, childUnblocked, readyLink.mono (by simp [ParentPc.Sleeping, Pc.stage]) id,
        startLink.mono id False.elim, by simp⟩
  | dead atPc exited =>
      subst atPc
      exact ⟨trivial, childUnblocked, readyLink.mono False.elim id, startLink.mono id False.elim,
        fun _ => exited⟩
  | again atPc living =>
      subst atPc
      exact ⟨trivial, childUnblocked, readyLink.mono False.elim id, startLink.mono id False.elim,
        by simp⟩

/-- Every reachable handshake is awake and in some phase of its barrier. -/
theorem awake_of_reachable {rounds : List U32} {state : Handshake}
    (reachable : (handshakeSystem rounds).Reachable state) : state.Awake := by
  refine System.Reachable.invariant Handshake.Awake ?_ ?_ reachable
  · rintro state rfl
    exact ⟨trivial, trivial, .of_empty rfl, .of_empty rfl, by simp [Handshake.initial]⟩
  · intro state move next before step awake
    have wellFormed := wellFormed_of_reachable before
    obtain ⟨barrier, _, follows⟩ := (handshake_refines_barrier rounds).reachable before
    rcases Handshake.step_cases step with ⟨_, procNext, _, effect, rfl⟩ |
      ⟨_, op, rest, procNext, pcNext, _, todo, effect, rfl⟩
    · exact awake.child_step wellFormed follows effect
    · obtain ⟨proc, parent, ops⟩ := state
      cases todo
      exact awake.parent_step wellFormed follows effect

/-! ## Progress -/

/-- A party is inside `FUTEX_WAIT` and nobody has woken it. -/
def Handshake.Asleep (state : Handshake) : Party → Prop
  | .parent =>
      (∃ cookie, state.parent = .consume (.asleep cookie) ∧ .parent ∈ state.proc.ready.queue) ∨
        ∃ cookie, state.parent = .produce (.asleep cookie) ∧ .parent ∈ state.proc.start.queue
  | .child =>
      (∃ cookie, state.proc.child.pc = .start (.asleep cookie) ∧
          .child ∈ state.proc.start.queue) ∨
        ∃ cookie, state.proc.child.pc = .ready (.asleep cookie) ∧
          .child ∈ state.proc.ready.queue

/-- A step of the handshake itself: neither a timeout nor a failure of a system
call, nor something the child's body does on its own. -/
def Move.voluntary : Move → Bool
  | .parent .proceed | .child (.turn .proceed) | .child .call => true
  | .parent (.sem choice) | .child (.turn (.sem choice)) => choice.voluntary
  | .child .work | .child .exit => false

/-- The phase of the round never leaves both sides waiting for each other. -/
theorem Handshake.Awake.not_both {state : Handshake} {barrier : Barrier U32}
    (awake : state.Awake) (follows : Follows state barrier)
    (parentQueued : .parent ∈ state.proc.ready.queue)
    (childQueued : .child ∈ state.proc.start.queue) : False := by
  have parentSleeps := awake.ready.asleep parentQueued
  have childSleeps := awake.start.asleep childQueued
  have parentAt := follows.parent
  have childAt := follows.child
  cases parentPc : state.parent with
  | consume parentCall =>
      cases childPc : state.proc.child.pc with
      | start childCall =>
          rw [parentPc] at parentSleeps parentAt
          rw [childPc] at childSleeps
          have parentTrying : parentCall.stage.commits = 0 := by
            rw [show parentCall.stage = .asleep from parentSleeps]
            rfl
          have childTrying : childCall.stage.commits = 0 := by
            rw [show childCall.stage = .asleep from childSleeps]
            rfl
          have empty : amountOf state.proc.ready.count = 0 := by
            rcases awake.ready.covered parentQueued with ⟨_, empty⟩ | waking
            · exact empty
            · rw [childPc] at waking
              exact waking.elim
          have idle : amountOf state.proc.start.count = 0 := by
            rcases awake.start.covered childQueued with ⟨_, empty⟩ | waking
            · exact empty
            · rw [parentPc] at waking
              exact waking.elim
          rw [follows.ready] at empty
          rw [follows.start] at idle
          simp only [Child.At, childPc, if_pos childTrying, Child.Waiting] at childAt
          have notAcknowledged : barrier.phase ≠ .acknowledged := fun acknowledged =>
            absurd (parentAt.2.mp acknowledged) (by omega)
          cases phase : barrier.phase <;> simp_all [token]
      | _ =>
          rw [childPc] at childSleeps
          exact childSleeps.elim
  | _ =>
      rw [parentPc] at parentSleeps
      exact parentSleeps.elim

theorem enabled_child {rounds : List U32} {state : Handshake} {turn : ChildTurn}
    (step : (childStep state.proc turn).isSome = true) :
    (handshakeSystem rounds).Enabled state (.child turn) := by
  change ((childStep state.proc turn).map _).isSome = true
  rwa [Option.isSome_map]

theorem enabled_parent {rounds : List U32} {state : Handshake} {turn : Turn}
    (busy : state.todo ≠ [])
    (step : ∀ op, (parentStep state.proc op state.parent turn).isSome = true) :
    (handshakeSystem rounds).Enabled state (.parent turn) := by
  obtain ⟨op, rest, todo⟩ := List.exists_cons_of_ne_nil busy
  change (Handshake.step state (.parent turn)).isSome = true
  simp only [Handshake.step, todo, Option.isSome_map, step]

/-- A child that is alive can go on unless it waits for its next count. -/
theorem child_enabled {rounds : List U32} {state : Handshake} (wellFormed : state.WellFormed)
    (awake : state.Awake) (born : state.proc.child.pc ≠ .unborn)
    (living : state.proc.child.pc ≠ .exited) (free : .child ∉ state.proc.start.queue) :
    ∃ move, Move.voluntary move = true ∧ (handshakeSystem rounds).Enabled state move := by
  have valid := wellFormed.child
  have unblocked := awake.child
  cases childPc : state.proc.child.pc with
  | unborn => exact absurd childPc born
  | exited => exact absurd childPc living
  | body => exact ⟨.child .call, rfl, enabled_child (by simp [childStep, childPc])⟩
  | swap => exact ⟨.child (.turn .proceed), rfl, enabled_child (by simp [childStep, childPc])⟩
  | ready call =>
      rw [childPc] at valid unblocked
      cases returned : call.result with
      | some result =>
          exact ⟨.child (.turn .proceed), rfl,
            enabled_child (by simp [childStep, childPc, returned])⟩
      | none =>
          obtain ⟨choice, voluntary, step⟩ := Call.exists_step childReadyProduce 0 Party.child
            state.proc.ready valid.timerless returned (fun sleeps => absurd sleeps unblocked.awake)
          exact ⟨.child (.turn (.sem choice)), voluntary,
            enabled_child (by simpa [childStep, childPc] using step)⟩
  | start call =>
      rw [childPc] at valid
      cases returned : call.result with
      | some result =>
          exact ⟨.child (.turn .proceed), rfl,
            enabled_child (by simp [childStep, childPc, returned])⟩
      | none =>
          obtain ⟨choice, voluntary, step⟩ := Call.exists_step childStartConsume 0 Party.child
            state.proc.start valid.timerless returned (fun _ => free)
          exact ⟨.child (.turn (.sem choice)), voluntary,
            enabled_child (by simpa [childStep, childPc] using step)⟩

/-- The parent can go on unless it waits for the child or has given it up. -/
theorem parent_enabled {rounds : List U32} {state : Handshake} (wellFormed : state.WellFormed)
    (awake : state.Awake) (busy : state.todo ≠ []) (trusting : state.parent ≠ .failed)
    (free : .parent ∉ state.proc.ready.queue) :
    ∃ move, Move.voluntary move = true ∧ (handshakeSystem rounds).Enabled state move := by
  have valid := wellFormed.parent
  have unblocked := awake.parent
  cases parentPc : state.parent with
  | failed => exact absurd parentPc trusting
  | idle => exact ⟨.parent .proceed, rfl, enabled_parent busy (by simp [parentStep, parentPc])⟩
  | store iters =>
      exact ⟨.parent .proceed, rfl, enabled_parent busy (by simp [parentStep, parentPc])⟩
  | alive => exact ⟨.parent .proceed, rfl, enabled_parent busy (by simp [parentStep, parentPc])⟩
  | produce call =>
      rw [parentPc] at valid unblocked
      cases returned : call.result with
      | some result =>
          exact ⟨.parent .proceed, rfl,
            enabled_parent busy (by simp [parentStep, parentPc, returned])⟩
      | none =>
          obtain ⟨choice, voluntary, step⟩ := Call.exists_step startProduce 0 Party.parent
            state.proc.start valid.timerless returned (fun sleeps => absurd sleeps unblocked.awake)
          exact ⟨.parent (.sem choice), voluntary,
            enabled_parent busy (fun _ => by simpa [parentStep, parentPc] using step)⟩
  | consume call =>
      rw [parentPc] at valid
      cases returned : call.result with
      | some result =>
          exact ⟨.parent .proceed, rfl,
            enabled_parent busy (by simp [parentStep, parentPc, returned])⟩
      | none =>
          obtain ⟨choice, voluntary, step⟩ := Call.exists_step readyConsume 0 Party.parent
            state.proc.ready valid.timerless returned (fun _ => free)
          exact ⟨.parent (.sem choice), voluntary,
            enabled_parent busy (fun _ => by simpa [parentStep, parentPc] using step)⟩

/-- The handshake of one parent and one child never gets stuck.  While the
child is alive and the parent has something left to do, some step is enabled
that is no timeout; the two sides are never both asleep; and the parent's
`start.produce` does not wait. -/
theorem handshake_progress (rounds : List U32) (state : Handshake)
    (reachable : (handshakeSystem rounds).Reachable state) :
    (state.proc.child.pc ≠ .exited → state.todo ≠ [] →
      ∃ move, Move.voluntary move = true ∧ (handshakeSystem rounds).Enabled state move) ∧
    ¬ (state.Asleep .parent ∧ state.Asleep .child) ∧
    ∀ call, state.parent = .produce call → Unblocked call := by
  have wellFormed := wellFormed_of_reachable reachable
  have awake := awake_of_reachable reachable
  obtain ⟨barrier, _, follows⟩ := (handshake_refines_barrier rounds).reachable reachable
  refine ⟨?_, ?_, ?_⟩
  · intro living busy
    by_cases parentQueued : .parent ∈ state.proc.ready.queue
    · have childFree : .child ∉ state.proc.start.queue := awake.not_both follows parentQueued
      refine child_enabled wellFormed awake ?_ living childFree
      intro unborn
      have parentSleeps := awake.ready.asleep parentQueued
      rw [(follows.unborn.mp unborn).1] at parentSleeps
      exact parentSleeps
    · exact parent_enabled wellFormed awake busy (fun dead => living (awake.failed dead))
        parentQueued
  · rintro ⟨parentAsleep, childAsleep⟩
    rcases parentAsleep with ⟨_, _, parentQueued⟩ | ⟨cookie, parentPc, _⟩
    · rcases childAsleep with ⟨_, _, childQueued⟩ | ⟨cookie, childPc, _⟩
      · exact awake.not_both follows parentQueued childQueued
      · have unblocked := awake.child
        rw [childPc] at unblocked
        exact unblocked
    · have unblocked := awake.parent
      rw [parentPc] at unblocked
      exact unblocked
  · intro call parentPc
    have unblocked := awake.parent
    rwa [parentPc] at unblocked

/-- The parent's consume times out and is repeated before the child arrives. -/
def timedOutWait : List Move :=
  let run := Move.parent (.sem .run)
  [.parent .proceed] ++ List.replicate 4 run ++ [.parent (.sem .timeout)] ++
    List.replicate 2 (.parent .proceed) ++ List.replicate 3 run ++ [.child .call] ++
    List.replicate 3 (.child (.turn (.sem .run)))

/-- The parent sleeps with its flag taken; the child is about to wake it. -/
def wakesParent (state : Handshake) : Bool :=
  decide (state.parent = .consume (.asleep 0) ∧ state.proc.ready.queue = [.parent] ∧
    hasWaiter state.proc.ready.count = false ∧ state.proc.child.pc = .ready .notify)

theorem handshake_progress_timedOutWait :
    ∃ state, (handshakeSystem [5]).exec (.initial [5]) timedOutWait = some state ∧
      wakesParent state = true ∧
      (∃ move, Move.voluntary move = true ∧ (handshakeSystem [5]).Enabled state move) ∧
      state.Asleep .parent ∧ ¬ state.Asleep .child ∧
      ∀ call, state.parent = .produce call → Unblocked call := by
  have initial : (handshakeSystem [5]).init (.initial [5]) := rfl
  have run : (((handshakeSystem [5]).exec (.initial [5]) timedOutWait).any fun state =>
      wakesParent state && decide (state.todo ≠ [])) = true := by
    decide
  obtain ⟨state, ends, here⟩ := (Option.any_eq_true _ _).mp run
  obtain ⟨wakes, busy⟩ := (Bool.and_eq_true _ _).mp here
  obtain ⟨parent, queue, _, child⟩ := of_decide_eq_true wakes
  obtain ⟨enabled, notBoth, unblocked⟩ :=
    handshake_progress [5] state ((System.Reachable.init initial).of_exec ends)
  have asleep : state.Asleep .parent := Or.inl ⟨0, parent, by simp [queue]⟩
  exact ⟨state, ends, wakes, enabled (by simp [child]) (of_decide_eq_true busy), asleep,
    fun childAsleep => notBoth ⟨asleep, childAsleep⟩, unblocked⟩

end Schtest.Process
