import Schtest.Process.Barrier

/-!
# Rounds of the handshake

The relation between a handshake and its barrier says, for every place where
parent and child can be, in which phase the round is and which counts have
been delivered.  It is kept by every step, so that the handshake refines the
barrier.
-/

namespace Schtest.Process

open Schtest.Semaphore Schtest.Transition

/-! ## Where the two sides are in a round -/

/-- The child waits for a count: the last released one has been returned, or
is in the cell for it. -/
def Child.Waiting (barrier : Barrier U32) (iters : U32) (child : Child) : Prop :=
  match barrier.phase with
  | .working => False
  | .arrived | .acknowledged =>
      child.returns = barrier.released ∧ child.calls = barrier.released.length + 1
  | .started =>
      child.returns ++ [iters] = barrier.released ∧ child.calls = barrier.released.length

/-- The child has taken the token and is about to return the count. -/
def Child.Departing (barrier : Barrier U32) (iters : U32) (child : Child) : Prop :=
  barrier.phase = .working ∧ child.returns ++ [iters] = barrier.released ∧
    child.calls = barrier.released.length

/-- What survives the child: it has returned the first of the released counts,
has arrived as often as the phase says, and is in one call at most. -/
def Child.Delivered (barrier : Barrier U32) (child : Child) : Prop :=
  child.returns <+: barrier.released ∧
    barrier.released.length + barrier.phase.owed ≤ child.calls ∧
    child.calls ≤ child.returns.length + 1

/-- Where the child is in the round. -/
def Child.At (barrier : Barrier U32) (iters : U32) (child : Child) : Prop :=
  match child.pc with
  | .unborn | .body =>
      barrier.phase = .working ∧ child.returns = barrier.released ∧
        child.calls = barrier.released.length
  | .ready call =>
      if call.stage.commits = 0 then
        barrier.phase = .working ∧ child.returns = barrier.released ∧
          child.calls = barrier.released.length + 1
      else child.Waiting barrier iters
  | .start call =>
      if call.stage.commits = 0 then child.Waiting barrier iters
      else child.Departing barrier iters
  | .swap => child.Departing barrier iters
  | .exited => child.Delivered barrier

/-- The operation that ends with the acknowledgement of the next arrival. -/
def awaitOp (released : List U32) : ParentOp :=
  if released = [] then .create else .wait

/-- Where the parent is in the round. -/
def ParentPc.At (barrier : Barrier U32) (iters : U32) (todo : List ParentOp) (pc : ParentPc) :
    Prop :=
  match pc with
  | .idle =>
      if barrier.phase = .acknowledged then todo = roundOps barrier.pending
      else todo = awaitOp barrier.released :: roundOps barrier.pending
  | .store count =>
      barrier.phase = .acknowledged ∧ todo = roundOps barrier.pending ∧
        barrier.pending.head? = some count
  | .produce call =>
      if call.stage.commits = 0 then
        barrier.phase = .acknowledged ∧ todo = roundOps barrier.pending ∧
          barrier.pending.head? = some iters
      else
        barrier.phase ≠ .acknowledged ∧ barrier.released ≠ [] ∧
          ∃ count, todo = .start count :: .wait :: roundOps barrier.pending
  | .consume call =>
      todo = awaitOp barrier.released :: roundOps barrier.pending ∧
        (barrier.phase = .acknowledged ↔ call.stage.commits = 1)
  | .alive | .failed =>
      barrier.phase ≠ .acknowledged ∧ todo = awaitOp barrier.released :: roundOps barrier.pending

/-- A handshake is in the phase of its barrier. -/
structure Follows (state : Handshake) (barrier : Barrier U32) : Prop where
  ready : amountOf state.proc.ready.count = token (barrier.phase == .arrived)
  start : amountOf state.proc.start.count = token (barrier.phase == .started)
  parent : state.parent.At barrier state.proc.iters state.todo
  child : state.proc.child.At barrier state.proc.iters
  unborn : state.proc.child.pc = .unborn ↔
    state.parent = .idle ∧ barrier.released = [] ∧ barrier.phase ≠ .acknowledged

@[simp]
theorem roundOps_nil : roundOps [] = [] :=
  rfl

@[simp]
theorem roundOps_cons (count : U32) (rest : List U32) :
    roundOps (count :: rest) = .start count :: .wait :: roundOps rest :=
  rfl

/-- The operations of a round begin with its start. -/
theorem roundOps_eq_cons {counts : List U32} {op : ParentOp} {rest : List ParentOp}
    (begins : roundOps counts = op :: rest) :
    ∃ count pending, counts = count :: pending ∧ op = .start count ∧
      rest = .wait :: roundOps pending := by
  cases counts with
  | nil => contradiction
  | cons count pending =>
      cases begins
      exact ⟨count, pending, rfl, rfl, rfl⟩

theorem awaitOp_ne_start (released : List U32) (count : U32) :
    awaitOp released ≠ .start count := by
  unfold awaitOp
  split <;> simp

theorem awaitOp_of_ne {released : List U32} (some_ : released ≠ []) : awaitOp released = .wait :=
  if_neg some_

theorem awaitOp_eq_create_iff {released : List U32} :
    awaitOp released = .create ↔ released = [] := by
  unfold awaitOp
  split <;> simp_all

/-- An idle parent goes on with the wait that is due, or starts a round. -/
theorem ParentPc.At.idle_cases {barrier : Barrier U32} {iters : U32} {op : ParentOp}
    {rest : List ParentOp} (here : ParentPc.idle.At barrier iters (op :: rest)) :
    (barrier.phase ≠ .acknowledged ∧ op = awaitOp barrier.released ∧
        rest = roundOps barrier.pending) ∨
      (barrier.phase = .acknowledged ∧ ∃ count later, barrier.pending = count :: later ∧
        op = .start count ∧ rest = .wait :: roundOps later) := by
  rw [ParentPc.At] at here
  split at here
  · rename_i acknowledged
    exact Or.inr ⟨acknowledged, roundOps_eq_cons here.symm⟩
  · rename_i other
    cases here
    exact Or.inl ⟨other, rfl, rfl⟩

/-- Only an acknowledged parent depends on what is in the cell. -/
theorem ParentPc.At.of_ne {barrier : Barrier U32} {iters iters' : U32} {todo : List ParentOp}
    {pc : ParentPc} (other : barrier.phase ≠ .acknowledged) (here : pc.At barrier iters todo) :
    pc.At barrier iters' todo := by
  cases pc with
  | produce call =>
      rw [ParentPc.At] at here ⊢
      split
      · rename_i before
        rw [if_pos before] at here
        exact absurd here.1 other
      · rename_i after
        rwa [if_neg after] at here
  | _ => exact here

/-- The child makes its own steps; the parent only sees the phase change. -/
theorem ParentPc.At.of_phase {phase phase' : Phase} {released pending : List U32} {iters : U32}
    {todo : List ParentOp} {pc : ParentPc} (other : phase ≠ .acknowledged)
    (other' : phase' ≠ .acknowledged) (here : pc.At ⟨phase, released, pending⟩ iters todo) :
    pc.At ⟨phase', released, pending⟩ iters todo := by
  cases pc with
  | idle => simpa [ParentPc.At, other, other'] using here
  | store count => exact absurd here.1 other
  | produce call => simpa [ParentPc.At, other, other'] using here
  | consume call => simpa [ParentPc.At, other, other'] using here
  | alive => exact ⟨other', here.2⟩
  | failed => exact ⟨other', here.2⟩

theorem Child.Waiting.delivered {barrier : Barrier U32} {iters : U32} {child : Child}
    (waiting : child.Waiting barrier iters) : child.Delivered barrier := by
  unfold Child.Waiting at waiting
  unfold Child.Delivered
  split at waiting
  case h_1 => contradiction
  case h_4 phase =>
    rw [phase, ← waiting.1, waiting.2]
    exact ⟨List.prefix_append _ _, by simp [← waiting.1, Phase.owed],
      by simp [← waiting.1]⟩
  all_goals
    rename_i phase
    rw [phase, ← waiting.1, waiting.2]
    exact ⟨List.prefix_rfl, by simp [← waiting.1, Phase.owed], by simp [← waiting.1]⟩

theorem Child.Departing.delivered {barrier : Barrier U32} {iters : U32} {child : Child}
    (departing : child.Departing barrier iters) : child.Delivered barrier := by
  obtain ⟨phase, returned, called⟩ := departing
  unfold Child.Delivered
  rw [phase, ← returned, called]
  exact ⟨List.prefix_append _ _, by simp [← returned, Phase.owed], by simp [← returned]⟩

/-- Wherever the child is, it has returned the released counts in order. -/
theorem Child.At.delivered {barrier : Barrier U32} {iters : U32} {child : Child}
    (here : child.At barrier iters) : child.Delivered barrier := by
  have working (calls : Nat) (enough : barrier.released.length ≤ calls)
      (one : calls ≤ barrier.released.length + 1)
      (here : barrier.phase = .working ∧ child.returns = barrier.released ∧ child.calls = calls) :
      child.Delivered barrier := by
    obtain ⟨phase, returned, called⟩ := here
    unfold Child.Delivered
    rw [phase, returned, called]
    exact ⟨List.prefix_rfl, enough, one⟩
  unfold Child.At at here
  split at here
  case h_1 => exact working _ le_rfl (Nat.le_succ _) here
  case h_2 => exact working _ le_rfl (Nat.le_succ _) here
  case h_3 =>
    split at here
    · exact working _ (Nat.le_succ _) le_rfl here
    · exact here.delivered
  case h_4 =>
    split at here
    · exact here.delivered
    · exact here.delivered
  case h_5 => exact here.delivered
  case h_6 => exact here

/-- Outside the working phase the child waits or is gone, so that it follows
the parent's changes of the round without a step of its own. -/
theorem Child.At.change {barrier barrier' : Barrier U32} {iters iters' : U32} {child : Child}
    (here : child.At barrier iters) (busy : barrier.phase ≠ .working)
    (waiting : child.Waiting barrier iters → child.Waiting barrier' iters')
    (delivered : child.Delivered barrier → child.Delivered barrier') :
    child.At barrier' iters' := by
  unfold Child.At at here ⊢
  split at here
  case h_1 => exact absurd here.1 busy
  case h_2 => exact absurd here.1 busy
  case h_3 =>
    split at here
    · exact absurd here.1 busy
    · rename_i arrived
      rw [if_neg arrived]
      exact waiting here
  case h_4 =>
    split at here
    · rename_i arrived
      rw [if_pos arrived]
      exact waiting here
    · exact absurd here.1 busy
  case h_5 => exact absurd here.1 busy
  case h_6 => exact delivered here

/-! ## Every step keeps the relation -/

/-- The barrier stays, or takes one step, into a state the handshake follows. -/
def Advances (barrier : Barrier U32) (next : Handshake) : Prop :=
  Follows next barrier ∨
    ∃ event barrierNext, barrier.step event = some barrierNext ∧ Follows next barrierNext

theorem Follows.child_step {state : Handshake} {barrier : Barrier U32} {procNext : Process}
    (follows : Follows state barrier) (wellFormed : state.WellFormed)
    (effect : ChildEffect state.proc procNext) :
    Advances barrier { state with proc := procNext } := by
  obtain ⟨⟨child, start, ready, iters⟩, parent, todo⟩ := state
  obtain ⟨pc, calls, returns⟩ := child
  obtain ⟨phase, released, pending⟩ := barrier
  obtain ⟨startMax, readyMax, childValid, -⟩ := wellFormed
  obtain ⟨readyToken, startToken, parentAt, childAt, unborn⟩ := follows
  dsimp only at startMax readyMax childValid readyToken startToken parentAt childAt unborn
  cases effect with
  | work atPc =>
      exact Or.inl ⟨readyToken, startToken, parentAt, childAt, unborn⟩
  | call atPc =>
      cases atPc
      obtain ⟨working, returned, called⟩ := childAt
      refine Or.inl ⟨readyToken, startToken, parentAt, ?_, by simpa using unborn⟩
      exact ⟨working, returned, congrArg (· + 1) called⟩
  | exit born living =>
      refine Or.inl ⟨readyToken, startToken, parentAt, childAt.delivered, ?_⟩
      simpa [exitChild, born] using unborn
  | ready atPc callStep =>
      cases atPc
      obtain ⟨effect, _, _⟩ := InCall.step childValid readyMax callStep
      rcases put_token rfl rfl readyMax readyToken effect with
        ⟨empty, before, after, put⟩ | ⟨same, kept⟩
      · simp only [Child.At, if_pos before] at childAt
        obtain ⟨rfl, returned, called⟩ := childAt
        refine Or.inr ⟨.arrive, _, rfl, put, startToken,
          parentAt.of_phase (by simp) (by simp), ?_, by simpa using unborn⟩
        simp only [Child.At, setChild_child, after]
        exact ⟨returned, called⟩
      · refine Or.inl ⟨kept, startToken, parentAt, ?_, by simpa using unborn⟩
        simp only [Child.At, setChild_child, same]
        exact childAt
  | readied atPc =>
      cases atPc
      rename_i result
      cases result with
      | false => exact absurd rfl (childValid.unfailed rfl)
      | true => exact Or.inl ⟨readyToken, startToken, parentAt, childAt, by simpa using unborn⟩
  | start atPc callStep =>
      cases atPc
      obtain ⟨effect, _, _⟩ := InCall.step childValid startMax callStep
      rcases take_token rfl rfl startToken effect with
        ⟨full, before, after, taken⟩ | ⟨same, kept⟩
      · simp only [Child.At, if_pos before] at childAt
        obtain rfl : phase = .started := by simpa using full
        refine Or.inr ⟨.depart, _, rfl, readyToken, taken,
          parentAt.of_phase (by simp) (by simp), ?_, by simpa using unborn⟩
        simp only [Child.At, setChild_child, after]
        exact ⟨rfl, childAt⟩
      · refine Or.inl ⟨readyToken, kept, parentAt, ?_, by simpa using unborn⟩
        simp only [Child.At, setChild_child, same]
        exact childAt
  | started atPc =>
      cases atPc
      exact Or.inl ⟨readyToken, startToken, parentAt, childAt, by simpa using unborn⟩
  | swap atPc =>
      cases atPc
      obtain ⟨working, returned, called⟩ := childAt
      dsimp only at working returned called
      refine Or.inl ⟨readyToken, startToken, parentAt.of_ne (by simp [working]), ?_,
        by simpa using unborn⟩
      exact ⟨working, returned, called⟩

@[simp]
theorem remainingOps_idle {α : Type} (todo : List α) : remainingOps .idle todo = todo.tail :=
  rfl

theorem remainingOps_of_ne {α : Type} {pc : ParentPc} (busy : pc ≠ .idle) (todo : List α) :
    remainingOps pc todo = todo :=
  if_neg busy

/-- A process is created once, before anything else. -/
theorem Follows.of_create {proc : Process} {rest : List ParentOp} {barrier : Barrier U32}
    (follows : Follows ⟨proc, .idle, .create :: rest⟩ barrier) :
    proc.child.pc = .unborn ∧ barrier.phase ≠ .acknowledged ∧
      .create :: rest = awaitOp barrier.released :: roundOps barrier.pending := by
  rcases follows.parent.idle_cases with ⟨other, due, later⟩ | ⟨_, count, later, _, started, _⟩
  · have fresh : barrier.released = [] := awaitOp_eq_create_iff.mp due.symm
    exact ⟨follows.unborn.mpr ⟨rfl, fresh, other⟩, other, by rw [due, later]⟩
  · contradiction

theorem Follows.parent_step {proc procNext : Process} {parent parentNext : ParentPc}
    {op : ParentOp} {rest : List ParentOp} {barrier : Barrier U32}
    (follows : Follows ⟨proc, parent, op :: rest⟩ barrier)
    (wellFormed : Handshake.WellFormed ⟨proc, parent, op :: rest⟩)
    (effect : ParentEffect proc op parent procNext parentNext) :
    Advances barrier ⟨procNext, parentNext, remainingOps parentNext (op :: rest)⟩ := by
  obtain ⟨child, start, ready, iters⟩ := proc
  obtain ⟨pc, calls, returns⟩ := child
  obtain ⟨phase, released, pending⟩ := barrier
  obtain ⟨startMax, readyMax, -, parentValid⟩ := wellFormed
  have ⟨readyToken, startToken, parentAt, childAt, unborn⟩ := follows
  dsimp only at startMax readyMax parentValid readyToken startToken parentAt childAt unborn
  cases effect with
  | create atPc opEq =>
      subst atPc opEq
      obtain ⟨rfl, other, due⟩ := follows.of_create
      refine Or.inl ⟨readyToken, startToken, ⟨due, ?_⟩, childAt, by simp⟩
      exact iff_of_false other (by decide)
  | start atPc opEq =>
      subst atPc opEq
      rcases parentAt.idle_cases with ⟨_, due, _⟩ |
        ⟨acknowledged, count, later, next, started, rest⟩
      · exact absurd due.symm (awaitOp_ne_start _ _)
      · cases started
        cases acknowledged
        cases next
        exact Or.inl ⟨readyToken, startToken, ⟨rfl, by rw [rest]; rfl, rfl⟩, childAt,
          by simpa using unborn⟩
  | wait atPc opEq =>
      subst atPc opEq
      rcases parentAt.idle_cases with ⟨other, due, rest⟩ | ⟨_, count, later, _, started, _⟩
      · have later : released ≠ [] := by
          intro fresh
          simp [awaitOp, fresh] at due
        refine Or.inl ⟨readyToken, startToken, ⟨by rw [due, rest]; rfl, ?_⟩, childAt,
          by simpa [later] using unborn⟩
        exact iff_of_false other (by decide)
      · contradiction
  | store atPc =>
      subst atPc
      obtain ⟨rfl, todo, next⟩ := parentAt
      refine Or.inl ⟨readyToken, startToken, ⟨rfl, todo, next⟩, ?_, by simpa using unborn⟩
      exact childAt.change (by simp) id id
  | produce atPc callStep =>
      subst atPc
      obtain ⟨effect, _, _⟩ := InCall.step parentValid startMax callStep
      rcases put_token rfl rfl startMax startToken effect with
        ⟨empty, before, after, put⟩ | ⟨same, kept⟩
      · simp only [ParentPc.At, if_pos before] at parentAt
        obtain ⟨rfl, todo, next⟩ := parentAt
        cases pending with
        | nil => contradiction
        | cons count later =>
            cases next
            refine Or.inr ⟨.release, _, rfl, readyToken, put, ?_, ?_, by simpa using unborn⟩
            · rw [remainingOps_of_ne (by simp), todo]
              simp only [ParentPc.At, after]
              exact ⟨by simp, by simp, iters, rfl⟩
            · apply childAt.change (by simp)
              · rintro ⟨returned, called⟩
                exact ⟨congrArg (· ++ [iters]) returned, by simpa using called⟩
              · rintro ⟨returned, called⟩
                exact ⟨returned.trans (List.prefix_append _ _),
                  by simpa [Phase.owed] using called⟩
      · refine Or.inl ⟨readyToken, kept, ?_, childAt, by simpa using unborn⟩
        rw [remainingOps_of_ne (by simp)]
        simp only [ParentPc.At, same]
        exact parentAt
  | produced atPc =>
      subst atPc
      rename_i result
      cases result with
      | false => exact absurd rfl (parentValid.unfailed rfl)
      | true =>
          obtain ⟨other, later, count, todo⟩ := parentAt
          cases todo
          refine Or.inl ⟨readyToken, startToken, ?_, childAt, by simpa [later] using unborn⟩
          simp only [ParentPc.At, if_neg other, awaitOp_of_ne later]
          rfl
  | consume atPc callStep =>
      subst atPc
      obtain ⟨effect, _, _⟩ := InCall.step parentValid readyMax callStep
      rcases take_token rfl rfl readyToken effect with
        ⟨full, before, after, taken⟩ | ⟨same, kept⟩
      · obtain rfl : phase = .arrived := by simpa using full
        refine Or.inr ⟨.acknowledge, _, rfl, taken, startToken, ?_, ?_, by simpa using unborn⟩
        · rw [remainingOps_of_ne (by simp)]
          exact ⟨parentAt.1, iff_of_true rfl after⟩
        · exact childAt.change (by simp) id id
      · refine Or.inl ⟨kept, startToken, ?_, childAt, by simpa using unborn⟩
        rw [remainingOps_of_ne (by simp)]
        simp only [ParentPc.At, same]
        exact parentAt
  | consumed atPc =>
      subst atPc
      obtain ⟨todo, acknowledged⟩ := parentAt
      obtain rfl : phase = .acknowledged := acknowledged.mpr rfl
      refine Or.inl ⟨readyToken, startToken, ?_, childAt, by simpa using unborn⟩
      exact congrArg List.tail todo
  | expired atPc =>
      subst atPc
      obtain ⟨todo, acknowledged⟩ := parentAt
      have other : phase ≠ .acknowledged := fun here => absurd (acknowledged.mp here) (by decide)
      exact Or.inl ⟨readyToken, startToken, ⟨other, todo⟩, childAt, by simpa using unborn⟩
  | dead atPc exited =>
      subst atPc
      exact Or.inl ⟨readyToken, startToken, parentAt, childAt, by simpa using unborn⟩
  | again atPc living =>
      subst atPc
      obtain ⟨other, todo⟩ := parentAt
      refine Or.inl ⟨readyToken, startToken, ⟨todo, ?_⟩, childAt, by simpa using unborn⟩
      exact iff_of_false other (by decide)

/-- The handshake refines the barrier. -/
theorem handshake_refines_barrier (rounds : List U32) :
    Refinement (handshakeSystem rounds) (Barrier.system rounds) Follows where
  init := by
    rintro state rfl
    refine ⟨⟨.working, [], rounds⟩, rfl, ?_⟩
    constructor
    case ready => exact new_amount _ _
    case start => exact new_amount _ _
    case parent => rfl
    case child => exact ⟨rfl, rfl, rfl⟩
    case unborn => simp [Handshake.initial, allocated]
  step := by
    intro state move next barrier reachable step follows
    have wellFormed := wellFormed_of_reachable reachable
    rcases Handshake.step_cases step with ⟨_, procNext, _, effect, rfl⟩ |
      ⟨_, op, rest, procNext, pcNext, _, todo, effect, rfl⟩
    · exact follows.child_step wellFormed effect
    · obtain ⟨proc, parent, ops⟩ := state
      cases todo
      exact follows.parent_step wellFormed effect

/-! ## What a round has delivered -/

theorem count_wait_roundOps (counts : List U32) :
    (roundOps counts).count .wait = counts.length := by
  induction counts with
  | nil => rfl
  | cons count rest ih => simp [ih]

/-- Once a wait is over, the child has called `get_iters` once more than there
are finished waits. -/
theorem Follows.calls {state : Handshake} {barrier : Barrier U32} (follows : Follows state barrier)
    (started : state.todo.count .wait < barrier.released.length + barrier.pending.length) :
    barrier.released.length + barrier.pending.length + 1 ≤
      state.proc.child.calls + state.todo.count .wait := by
  have calls := follows.child.delivered.2.1
  have awaiting (here : state.todo.count .wait =
      (awaitOp barrier.released :: roundOps barrier.pending).count .wait) :
      barrier.released.length + barrier.pending.length + 1 ≤
        state.proc.child.calls + state.todo.count .wait := by
    rw [here] at started ⊢
    by_cases fresh : barrier.released = []
    · simp [fresh, awaitOp, count_wait_roundOps] at started
    · rw [awaitOp_of_ne fresh, List.count_cons_self, count_wait_roundOps]
      omega
  have acknowledged (phase : barrier.phase = .acknowledged)
      (here : state.todo = roundOps barrier.pending) :
      barrier.released.length + barrier.pending.length + 1 ≤
        state.proc.child.calls + state.todo.count .wait := by
    rw [phase, Phase.owed] at calls
    rw [here, count_wait_roundOps]
    omega
  have here := follows.parent
  unfold ParentPc.At at here
  split at here
  case h_1 =>
    split at here
    · rename_i phase
      exact acknowledged phase here
    · exact awaiting (by rw [here])
  case h_2 => exact acknowledged here.1 here.2.1
  case h_3 =>
    split at here
    · exact acknowledged here.1 here.2.1
    · obtain ⟨_, later, count, todo⟩ := here
      exact awaiting (by simp [todo, awaitOp_of_ne later])
  case h_4 => exact awaiting (by rw [here.1])
  case h_5 => exact awaiting (by rw [here.2])
  case h_6 => exact awaiting (by rw [here.2])

end Schtest.Process
