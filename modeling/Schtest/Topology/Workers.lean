import Schtest.Bench.Converge
import Schtest.Process.Context

/-!
# The workers of `come_together`

Each worker takes a count from `get_iters` and produces it on its `wakeup`
semaphore, whose maximum is the number of cores.  Nothing consumes from these
semaphores, so that the counts of all rounds add up there.
-/

namespace Schtest.Topology

open Schtest.Semaphore Schtest.Process Schtest.Transition

/-! ## The workers and their semaphores -/

/-- The processes of `come_together`, each with its `wakeup` semaphore and the
`wakeup.produce(iters, iters, None)` it is in: the count, and where the call is. -/
structure Workers (m : Nat) where
  context : Context m
  wakeup : Fin m → Semaphore 0 0 Unit
  produces : Fin m → Option (U32 × Pc)

namespace Workers

variable {m : Nat}

/-- A step of a worker's `produce`, the end of it, or any other step. -/
inductive Move (m : Nat)
  | context (move : Context.Move m)
  | produce (i : Fin m) (choice : Choice Unit)
  | produced (i : Fin m)
  deriving DecidableEq, Repr

/-- `wakeup.produce(iters, iters, None)`. -/
def wakeupProduce (iters : U32) : Call :=
  produce iters iters none

/-- The call a worker is in after a step of its process: a new one where
`get_iters` has returned, and none where the process is gone. -/
def callAfter (before after : Process) (call : Option (U32 × Pc)) : Option (U32 × Pc) :=
  if after.child.pc = .exited then none
  else if before.child.pc = .swap then some (before.iters, .load)
  else call

/-- A futex queue does not keep the dead. -/
def wakeupAfter (after : Process) (wakeup : Semaphore 0 0 Unit) : Semaphore 0 0 Unit :=
  if after.child.pc = .exited then { wakeup with queue := wakeup.queue.erase () } else wakeup

/-- One step of the parent, of a child, or of the call of `produce` a worker is in. -/
def step (state : Workers m) : Move m → Option (Workers m)
  | .context (.parent turn) =>
      (state.context.step (.parent turn)).map fun context => { state with context := context }
  | .context (.child i turn) =>
      -- A worker calls `get_iters` between two calls of `produce` only.
      if turn = .call ∧ (state.produces i).isSome then none
      else (childStep (state.context.processes i) turn).map fun proc =>
        { context :=
            { state.context with processes := Function.update state.context.processes i proc }
          wakeup := Function.update state.wakeup i (wakeupAfter proc (state.wakeup i))
          produces := Function.update state.produces i
            (callAfter (state.context.processes i) proc (state.produces i)) }
  | .produce i choice =>
      (state.produces i).bind fun call =>
        ((wakeupProduce call.1).step 0 () (state.wakeup i) call.2 choice).map fun out =>
          { state with
            wakeup := Function.update state.wakeup i out.sem
            produces := Function.update state.produces i (some (call.1, out.pc)) }
  | .produced i =>
      (state.produces i).bind fun call =>
        call.2.result.map fun _ =>
          { state with produces := Function.update state.produces i none }

/-- `Semaphore::<0, 0>::new(cores as u32)`. -/
def newWakeup (cores : Nat) : Semaphore 0 0 Unit :=
  new (BitVec.ofNat 32 cores) nofun

/-- `m` workers on a system with `cores` cores, before the first round. -/
def initial (m cores : Nat) (rounds : List U32) : Workers m where
  context := .initial m rounds
  wakeup _ := newWakeup cores
  produces _ := none

/-- All interleavings of the parent and the workers. -/
def system (m cores : Nat) (rounds : List U32) : Transition.System (Workers m) (Move m) where
  init state := state = initial m cores rounds
  step := step

/-- The possible effects of a step. -/
inductive StepEffect (state : Workers m) : Workers m → Prop
  | parent {turn context} : state.context.step (.parent turn) = some context →
      StepEffect state { state with context := context }
  | child {j turn proc} : (turn = .call → state.produces j = none) →
      childStep (state.context.processes j) turn = some proc →
      StepEffect state
        { context :=
            { state.context with processes := Function.update state.context.processes j proc }
          wakeup := Function.update state.wakeup j (wakeupAfter proc (state.wakeup j))
          produces := Function.update state.produces j
            (callAfter (state.context.processes j) proc (state.produces j)) }
  | produce {j count pc choice out} : state.produces j = some (count, pc) →
      (wakeupProduce count).step 0 () (state.wakeup j) pc choice = some out →
      StepEffect state
        { state with
          wakeup := Function.update state.wakeup j out.sem
          produces := Function.update state.produces j (some (count, out.pc)) }
  | produced {j count pc result} : state.produces j = some (count, pc) →
      pc.result = some result →
      StepEffect state { state with produces := Function.update state.produces j none }

theorem effect_of_step {state next : Workers m} {move : Move m}
    (step : state.step move = some next) : StepEffect state next := by
  unfold Workers.step at step
  split at step
  case h_1 turn =>
    obtain ⟨context, contextStep, rfl⟩ := Option.map_eq_some_iff.mp step
    exact .parent contextStep
  case h_2 j turn =>
    split at step
    · contradiction
    · rename_i outside
      obtain ⟨proc, childStep, rfl⟩ := Option.map_eq_some_iff.mp step
      refine .child (fun call => ?_) childStep
      simpa [call] using outside
  case h_3 j choice =>
    obtain ⟨⟨count, pc⟩, inCall, callStep⟩ := Option.bind_eq_some_iff.mp step
    obtain ⟨out, outStep, rfl⟩ := Option.map_eq_some_iff.mp callStep
    exact .produce inCall outStep
  case h_4 j =>
    obtain ⟨⟨count, pc⟩, inCall, callStep⟩ := Option.bind_eq_some_iff.mp step
    obtain ⟨result, returned, rfl⟩ := Option.map_eq_some_iff.mp callStep
    exact .produced inCall returned

/-! ## The context below -/

/-- The workers make the steps of their context. -/
theorem workers_refine_context (m cores : Nat) (rounds : List U32) :
    Refinement (system m cores rounds) (Context.system m rounds)
      (fun state ctx => ctx = state.context) where
  init := by
    rintro state rfl
    exact ⟨_, rfl, rfl⟩
  step := by
    rintro state move next ctx _ step rfl
    cases effect_of_step step with
    | @parent turn context contextStep => exact Or.inr ⟨.parent turn, context, contextStep, rfl⟩
    | @child j turn proc _ childStep =>
        refine Or.inr ⟨.child j turn, _, ?_, rfl⟩
        change state.context.step (.child j turn) = some _
        simp [Context.step, childStep]
    | produce _ _ => exact Or.inl rfl
    | produced _ _ => exact Or.inl rfl

theorem context_reachable {cores : Nat} {rounds : List U32} {state : Workers m}
    (reachable : (system m cores rounds).Reachable state) :
    (Context.system m rounds).Reachable state.context := by
  obtain ⟨_, contextReachable, rfl⟩ := (workers_refine_context m cores rounds).reachable reachable
  exact contextReachable

/-- A process is created while it does not exist. -/
theorem unborn_of_create {rounds : List U32} {ctx : Context m} {i : Fin m}
    {rest : List (ContextOp m)} (reachable : (Context.system m rounds).Reachable ctx)
    (todo : ctx.todo = .process i .create :: rest) (idle : ctx.parent = .idle) :
    (ctx.processes i).child.pc = .unborn := by
  obtain ⟨_, handshake, rfl⟩ := (Context.context_refines_handshake m rounds i).reachable reachable
  obtain ⟨barrier, _, follows⟩ := (handshake_refines_barrier rounds).reachable handshake
  have here : ctx.project i =
      ⟨ctx.processes i, .idle, .create :: rest.filterMap (Context.opOf i)⟩ := by
    simp [Context.project, todo, idle, Context.opOf]
  rw [here] at follows
  exact follows.of_create.1

/-- The parent leaves a child alone, or brings it to life. -/
theorem parent_step_child {rounds : List U32} {ctx next : Context m} {turn : Turn}
    (reachable : (Context.system m rounds).Reachable ctx)
    (step : ctx.step (.parent turn) = some next) (i : Fin m) :
    (next.processes i).child = (ctx.processes i).child ∨
      (ctx.processes i).child.pc = .unborn ∧
        (next.processes i).child = { (ctx.processes i).child with pc := .body } := by
  simp only [Context.step] at step
  split at step
  case h_1 => contradiction
  case h_2 j op rest todo =>
    obtain ⟨⟨proc, pc⟩, parentStep, rfl⟩ := Option.map_eq_some_iff.mp step
    by_cases same : i = j
    · subst same
      dsimp only
      rw [Function.update_self]
      cases parentEffect_of_step parentStep with
      | create idle opEq =>
          subst opEq
          exact Or.inr ⟨unborn_of_create reachable todo idle, rfl⟩
      | _ => exact Or.inl rfl
    · left
      dsimp only
      rw [Function.update_of_ne same]
  all_goals
    obtain ⟨_, rfl⟩ := Context.setRunning_eq_some step
    exact Or.inl rfl

/-! ## Where the count of a semaphore stands -/

/-- The sum of some counts as a `u32`. -/
def handedOut (counts : List U32) : U32 :=
  counts.foldl (· + ·) 0

@[simp]
theorem handedOut_concat (counts : List U32) (count : U32) :
    handedOut (counts ++ [count]) = handedOut counts + count :=
  List.foldl_concat ..

theorem handedOut_toNat (counts : List U32) :
    (handedOut counts).toNat = (counts.map BitVec.toNat).sum % 2 ^ 32 := by
  induction counts using List.reverseRecOn with
  | nil => rfl
  | append_singleton counts count ih =>
      rw [handedOut_concat, BitVec.toNat_add, ih]
      simp [Nat.add_mod]

/-- What a worker's process, semaphore and call have to do with each other. -/
inductive Standing (child : Child) (wakeup : Semaphore 0 0 Unit) : Option (U32 × Pc) → Prop
  /-- The process is gone. -/
  | gone : child.pc = .exited → Standing child wakeup none
  /-- Every count so far has been produced. -/
  | settled : wakeup.count = handedOut child.returns → wakeup.count ≤ wakeup.max →
      Standing child wakeup none
  /-- The last count is about to be produced. -/
  | free {before count pc} : child.pc = .body → child.returns = before ++ [count] →
      wakeup.count = handedOut before → wakeup.count ≤ wakeup.max →
      handedOut child.returns ≤ wakeup.max → (pc = .load ∨ pc = .commit wakeup.count) →
      Standing child wakeup (some (count, pc))
  /-- The last count has been produced. -/
  | done {count} : child.pc = .body → wakeup.count = handedOut child.returns →
      wakeup.count ≤ wakeup.max → Standing child wakeup (some (count, .returned true))
  /-- The last count does not fit. -/
  | stuck {before count pc} : child.pc = .body → child.returns = before ++ [count] →
      amountOf wakeup.count = handedOut before → ¬ handedOut child.returns ≤ wakeup.max →
      (pc.stage = .trying ∨ pc.stage = .asleep) → pc.Valid (wakeupProduce count) wakeup.max →
      Standing child wakeup (some (count, pc))

theorem produce_admits_iff {wakeup : Semaphore 0 0 Unit} {before : List U32} {count : U32}
    (amount : amountOf wakeup.count = handedOut before) :
    (wakeupProduce count).op.admits wakeup.max (wakeupProduce count).v (amountOf wakeup.count) =
        true ↔ handedOut (before ++ [count]) ≤ wakeup.max := by
  rw [amount, handedOut_concat]
  exact decide_eq_true_iff

/-- A word that is at most the maximum carries no flag. -/
theorem lt_of_le_max {wakeup : Semaphore 0 0 Unit} (small : wakeup.max.toNat < 2 ^ 31)
    (bounded : wakeup.count ≤ wakeup.max) : wakeup.count.toNat < 2 ^ 31 :=
  lt_of_le_of_lt (BitVec.le_def.mp bounded) small

/-- A worker whose count fits goes on to its exchange. -/
theorem Standing.free_step {child : Child} {wakeup : Semaphore 0 0 Unit} {before : List U32}
    {count : U32} {pc : Pc} {choice : Choice Unit} {out : Outcome 0 0 Unit}
    (small : wakeup.max.toNat < 2 ^ 31) (body : child.pc = .body)
    (returns : child.returns = before ++ [count]) (word : wakeup.count = handedOut before)
    (bounded : wakeup.count ≤ wakeup.max) (fits : handedOut child.returns ≤ wakeup.max)
    (next : pc = .load ∨ pc = .commit wakeup.count)
    (step : (wakeupProduce count).step 0 () wakeup pc choice = some out) :
    Standing child out.sem (some (count, out.pc)) ∧ out.sem.max = wakeup.max := by
  have wordSmall := lt_of_le_max small bounded
  have amount : amountOf wakeup.count = handedOut before := by
    rw [amountOf_of_lt wordSmall, word]
  have admitted := (produce_admits_iff amount).mpr (returns ▸ fits)
  rcases next with rfl | rfl
  · cases choice with
    | run =>
        cases step
        refine ⟨.free body returns word bounded fits (Or.inr ?_), rfl⟩
        simp [Call.branch, admitted]
    | _ => contradiction
  · cases choice with
    | run =>
        simp only [Call.step, if_pos, hasWaiter_of_lt wordSmall] at step
        cases step
        have stored : (wakeupProduce count).op.apply (wakeupProduce count).v
            (amountOf wakeup.count) = handedOut child.returns := by
          rw [amount, returns, handedOut_concat]
          rfl
        refine ⟨.done body stored ?_, rfl⟩
        dsimp only
        rw [stored]
        exact fits
    | fail =>
        cases step
        exact ⟨.free body returns word bounded fits (Or.inl rfl), rfl⟩
    | _ => contradiction

/-- A worker whose count does not fit never makes its exchange. -/
theorem Standing.stuck_step {child : Child} {wakeup : Semaphore 0 0 Unit} {before : List U32}
    {count : U32} {pc : Pc} {choice : Choice Unit} {out : Outcome 0 0 Unit}
    (body : child.pc = .body) (returns : child.returns = before ++ [count])
    (amount : amountOf wakeup.count = handedOut before)
    (full : ¬ handedOut child.returns ≤ wakeup.max)
    (waits : pc.stage = .trying ∨ pc.stage = .asleep)
    (valid : pc.Valid (wakeupProduce count) wakeup.max)
    (step : (wakeupProduce count).step 0 () wakeup pc choice = some out) :
    Standing child out.sem (some (count, out.pc)) ∧ out.sem.max = wakeup.max := by
  obtain ⟨effect, validNext⟩ := Call.effect_of_step valid step
  have fullNext : ¬ handedOut child.returns ≤ out.sem.max := by
    rwa [effect.max_eq]
  rw [← effect.max_eq] at validNext
  have here (amountNext : amountOf out.sem.count = amountOf wakeup.count)
      (waitsNext : out.pc.stage = .trying ∨ out.pc.stage = .asleep) :
      Standing child out.sem (some (count, out.pc)) :=
    .stuck body returns (amountNext.trans amount) fullNext waitsNext validNext
  refine ⟨?_, effect.max_eq⟩
  revert here
  generalize out.sem = sem, out.pc = next, out.event = event at effect
  intro here
  cases effect with
  | retry _ after _ => exact here rfl (Or.inl after)
  | arm _ after _ _ => exact here (amountOf_withWaiter _) (Or.inl after)
  | commit _ _ admitted =>
      rw [produce_admits_iff amount, ← returns] at admitted
      exact absurd admitted full
  | enqueue _ after _ _ _ => exact here rfl (Or.inr after)
  | resume _ after _ _ => exact here rfl (Or.inl after)
  | interrupt _ after _ _ => exact here rfl (Or.inl after)
  | expire _ _ _ _ timed => contradiction
  | measure before _ _ => simp [before] at waits
  | notify before _ _ _ _ => simp [before] at waits

/-- The steps of `produce` keep to it. -/
theorem Standing.produce_step {child : Child} {wakeup : Semaphore 0 0 Unit} {count : U32} {pc : Pc}
    {choice : Choice Unit} {out : Outcome 0 0 Unit} (small : wakeup.max.toNat < 2 ^ 31)
    (standing : Standing child wakeup (some (count, pc)))
    (step : (wakeupProduce count).step 0 () wakeup pc choice = some out) :
    Standing child out.sem (some (count, out.pc)) ∧ out.sem.max = wakeup.max := by
  cases standing with
  | free body returns word bounded fits next =>
      exact free_step small body returns word bounded fits next step
  | done _ _ _ => contradiction
  | stuck body returns amount full waits valid =>
      exact stuck_step body returns amount full waits valid step

/-- Between two calls of `produce` every count so far has been produced. -/
theorem Standing.between {child : Child} {wakeup : Semaphore 0 0 Unit}
    {call : Option (U32 × Pc)} (standing : Standing child wakeup call)
    (living : child.pc ≠ .exited) (outside : child.pc = .body → call = none) :
    call = none ∧ wakeup.count = handedOut child.returns ∧ wakeup.count ≤ wakeup.max := by
  cases standing with
  | gone exited => exact absurd exited living
  | settled word bounded => exact ⟨rfl, word, bounded⟩
  | free body _ _ _ _ _ => exact absurd (outside body) (by simp)
  | done body _ _ => exact absurd (outside body) (by simp)
  | stuck body _ _ _ _ _ => exact absurd (outside body) (by simp)

/-- A count that `get_iters` returns fits, or it does not. -/
theorem Standing.of_swap {child : Child} {wakeup : Semaphore 0 0 Unit} {before : List U32}
    {count : U32} (small : wakeup.max.toNat < 2 ^ 31) (body : child.pc = .body)
    (returns : child.returns = before ++ [count]) (word : wakeup.count = handedOut before)
    (bounded : wakeup.count ≤ wakeup.max) : Standing child wakeup (some (count, .load)) := by
  by_cases fits : handedOut child.returns ≤ wakeup.max
  · exact .free body returns word bounded fits (Or.inl rfl)
  · have amount : amountOf wakeup.count = handedOut before := by
      rw [amountOf_of_lt (lt_of_le_max small bounded), word]
    exact .stuck body returns amount fits (Or.inl rfl) trivial

/-- A step of the worker's process, which calls `get_iters` between two calls of
`produce` only. -/
theorem Standing.child_step {proc procNext : Process} {wakeup : Semaphore 0 0 Unit}
    {call : Option (U32 × Pc)} (small : wakeup.max.toNat < 2 ^ 31)
    (standing : Standing proc.child wakeup call)
    (outside : procNext.child.pc = .ready .load → proc.child.pc = .body → call = none)
    (effect : ChildEffect proc procNext) :
    Standing procNext.child (wakeupAfter procNext wakeup) (callAfter proc procNext call) := by
  obtain ⟨⟨pc, calls, returns⟩, start, ready, iters⟩ := proc
  have between (living : pc ≠ .exited) (away : pc ≠ .body) :=
    standing.between living fun body => absurd body away
  dsimp only at outside between
  cases effect with
  | work body =>
      cases body
      exact standing
  | call body =>
      cases body
      obtain ⟨rfl, word, bounded⟩ := standing.between (by simp) (outside rfl)
      exact .settled word bounded
  | exit _ _ => exact .gone rfl
  | ready atPc _ =>
      cases atPc
      obtain ⟨rfl, word, bounded⟩ := between (by simp) (by simp)
      exact .settled word bounded
  | readied atPc =>
      cases atPc
      obtain ⟨rfl, word, bounded⟩ := between (by simp) (by simp)
      exact .settled word bounded
  | start atPc _ =>
      cases atPc
      obtain ⟨rfl, word, bounded⟩ := between (by simp) (by simp)
      exact .settled word bounded
  | started atPc =>
      cases atPc
      obtain ⟨rfl, word, bounded⟩ := between (by simp) (by simp)
      exact .settled word bounded
  | swap atPc =>
      cases atPc
      obtain ⟨rfl, word, bounded⟩ := between (by simp) (by simp)
      exact .of_swap small rfl rfl word bounded

/-- The parent starts a child that has no semaphore call yet. -/
theorem Standing.of_unborn {child : Child} {wakeup : Semaphore 0 0 Unit}
    {call : Option (U32 × Pc)} (standing : Standing child wakeup call)
    (unborn : child.pc = .unborn) : Standing { child with pc := .body } wakeup call := by
  obtain ⟨rfl, word, bounded⟩ := standing.between (by simp [unborn]) (by simp [unborn])
  exact .settled word bounded

/-- After `produce` every count so far has been produced. -/
theorem Standing.of_produced {child : Child} {wakeup : Semaphore 0 0 Unit} {count : U32} {pc : Pc}
    {result : Bool} (standing : Standing child wakeup (some (count, pc)))
    (returned : pc.result = some result) : Standing child wakeup none := by
  rw [Pc.result_eq_some_iff] at returned
  subst returned
  cases standing with
  | free _ _ _ _ _ next => simp at next
  | done _ word bounded => exact .settled word bounded
  | stuck _ _ _ _ waits _ => simp [Pc.stage] at waits

/-- Only a call of `get_iters` leads from the body to its first step. -/
theorem eq_call_of_childStep {proc procNext : Process} {turn : ChildTurn}
    (step : childStep proc turn = some procNext) (body : proc.child.pc = .body)
    (calls : procNext.child.pc = .ready .load) : turn = .call := by
  cases turn with
  | call => rfl
  | work =>
      simp only [childStep, body, if_pos] at step
      cases step
      simp [body] at calls
  | exit =>
      simp only [childStep, body] at step
      cases step
      contradiction
  | turn turn =>
      cases turn <;> simp [childStep, body] at step

/-! ## Every reachable state -/

/-- The maximum of every semaphore is the one it was made with, and every worker
stands with it as it should. -/
structure Standings (cores : Nat) (state : Workers m) : Prop where
  max : ∀ i, (state.wakeup i).max = (newWakeup cores).max
  standing : ∀ i, Standing (state.context.processes i).child (state.wakeup i) (state.produces i)

theorem newWakeup_max_lt (cores : Nat) : (newWakeup cores).max.toNat < 2 ^ 31 := by
  change (amountOf (BitVec.ofNat 32 cores)).toNat < 2 ^ 31
  exact amountOf_lt _

/-- A step of one worker leaves the others standing. -/
theorem Standings.of_update {cores : Nat} {state next : Workers m}
    (standings : state.Standings cores) {j : Fin m} {wakeup : Semaphore 0 0 Unit}
    {call : Option (U32 × Pc)} (wakeups : next.wakeup = Function.update state.wakeup j wakeup)
    (calls : next.produces = Function.update state.produces j call)
    (others : ∀ i ≠ j, (next.context.processes i).child = (state.context.processes i).child)
    (maxNext : wakeup.max = (state.wakeup j).max)
    (here : Standing (next.context.processes j).child wakeup call) : next.Standings cores := by
  constructor
  case max =>
    rw [wakeups]
    exact (Function.forall_update_iff state.wakeup fun _ sem =>
      sem.max = (newWakeup cores).max).mpr
        ⟨maxNext.trans (standings.max j), fun i _ => standings.max i⟩
  case standing =>
    intro i
    rw [wakeups, calls]
    by_cases same : i = j
    · subst same
      simpa using here
    · simpa [same, others i same] using standings.standing i

theorem standings_of_reachable {cores : Nat} {rounds : List U32} {state : Workers m}
    (reachable : (system m cores rounds).Reachable state) : state.Standings cores := by
  refine Transition.System.Reachable.invariant (Standings cores) ?_ ?_ reachable
  · rintro state rfl
    refine ⟨fun _ => rfl, fun _ => .settled rfl ?_⟩
    exact BitVec.le_def.mpr (Nat.zero_le _)
  · rintro state move next before step standings
    have small (i : Fin m) : (state.wakeup i).max.toNat < 2 ^ 31 := by
      rw [standings.max i]
      exact newWakeup_max_lt cores
    cases effect_of_step step with
    | parent contextStep =>
        refine ⟨standings.max, fun i => ?_⟩
        rcases parent_step_child (context_reachable before) contextStep i with
          same | ⟨unborn, born⟩
        · dsimp only
          rw [same]
          exact standings.standing i
        · dsimp only
          rw [born]
          exact (standings.standing i).of_unborn unborn
    | @child j turn proc outside childStep =>
        have here := (standings.standing j).child_step (small j)
          (fun calls body => outside (eq_call_of_childStep childStep body calls))
          (childEffect_of_step childStep)
        have maxNext : (wakeupAfter proc (state.wakeup j)).max = (state.wakeup j).max := by
          unfold wakeupAfter
          split <;> rfl
        refine standings.of_update rfl rfl ?_ maxNext (by simpa using here)
        intro i other
        dsimp only
        rw [Function.update_of_ne other]
    | @produce j count pc choice out inCall outStep =>
        have here := standings.standing j
        rw [inCall] at here
        obtain ⟨hereNext, maxNext⟩ := here.produce_step (small j) outStep
        exact standings.of_update rfl rfl (fun _ _ => rfl) maxNext hereNext
    | @produced j count pc result inCall returned =>
        have here := standings.standing j
        rw [inCall] at here
        -- the semaphore stays as it is
        exact standings.of_update (Function.update_eq_self j state.wakeup).symm rfl
          (fun _ _ => rfl) rfl (here.of_produced returned)

/-! ## Whether a `produce` can complete -/

/-- Some run from here ends this `produce`. -/
def CanComplete (cores : Nat) (rounds : List U32) (state : Workers m) (i : Fin m) (count : U32) :
    Prop :=
  ∃ moves next, (system m cores rounds).exec state moves = some next ∧
    next.produces i = some (count, .returned true)

/-- The process is gone, or its last count does not fit. -/
def Lost (cores : Nat) (state : Workers m) (i : Fin m) : Prop :=
  (state.context.processes i).child.pc = .exited ∨
    (state.produces i).isSome = true ∧
      ¬ handedOut (state.context.processes i).child.returns ≤ (newWakeup cores).max

section Reachable

variable {cores : Nat} {rounds : List U32} {state next : Workers m} {i : Fin m} {count : U32}
  {pc : Pc}

/-- A lost worker has not completed its call. -/
theorem Lost.result_eq_none (standings : state.Standings cores) (lost : state.Lost cores i)
    (inCall : state.produces i = some (count, pc)) :
    (state.context.processes i).child.pc = .body ∧ pc.result = none ∧
      ¬ handedOut (state.context.processes i).child.returns ≤ (newWakeup cores).max := by
  have here := standings.standing i
  rw [inCall] at here
  have body : (state.context.processes i).child.pc = .body := by
    cases here with
    | free body _ _ _ _ _ => exact body
    | done body _ _ => exact body
    | stuck body _ _ _ _ _ => exact body
  have full : ¬ handedOut (state.context.processes i).child.returns ≤ (newWakeup cores).max := by
    rcases lost with exited | ⟨_, full⟩
    · simp [body] at exited
    · exact full
  refine ⟨body, ?_, full⟩
  rw [← standings.max i] at full
  cases here with
  | free _ _ _ _ fits _ => exact absurd fits full
  | done _ word bounded => exact absurd (word ▸ bounded) full
  | stuck _ _ _ _ waits _ =>
      cases pc with
      | returned _ => simp [Pc.stage] at waits
      | _ => rfl

theorem living_of_childEffect {proc procNext : Process} (effect : ChildEffect proc procNext) :
    proc.child.pc ≠ .exited := by
  cases effect with
  | exit _ living => exact living
  | work atPc | call atPc | ready atPc _ | readied atPc | start atPc _ | started atPc
  | swap atPc => simp [atPc]

/-- A lost worker stays lost. -/
theorem Lost.step (reachable : (system m cores rounds).Reachable state)
    (lost : state.Lost cores i) {move : Move m} (step : state.step move = some next) :
    next.Lost cores i := by
  have standings := standings_of_reachable reachable
  cases effect_of_step step with
  | parent contextStep =>
      rcases parent_step_child (context_reachable reachable) contextStep i with same | ⟨unborn, _⟩
      · unfold Lost
        dsimp only
        rw [same]
        exact lost
      · exfalso
        cases inCall : state.produces i with
        | none => simp [Lost, unborn, inCall] at lost
        | some call =>
            have body := (lost.result_eq_none standings inCall).1
            simp [unborn] at body
  | @child j turn proc outside childStep =>
      by_cases same : i = j
      · subst same
        have effect := childEffect_of_step childStep
        cases inCall : state.produces i with
        | none =>
            have exited := lost.resolve_right (by simp [inCall])
            exact absurd exited (living_of_childEffect effect)
        | some call =>
            obtain ⟨body, _, full⟩ := lost.result_eq_none standings inCall
            simp only [Lost, Function.update_self]
            cases effect with
            | work _ => exact Or.inr ⟨by simp [callAfter, body], full⟩
            | call _ => simp [outside (eq_call_of_childStep childStep body rfl)] at inCall
            | exit _ _ => exact Or.inl rfl
            | ready atPc _ | readied atPc | start atPc _ | started atPc | swap atPc =>
                simp [body] at atPc
      · simpa [Lost, same] using lost
  | @produce j count pc choice out inCall _ =>
      by_cases same : i = j
      · subst same
        obtain ⟨_, _, full⟩ := lost.result_eq_none standings inCall
        exact Or.inr ⟨by simp, full⟩
      · simpa [Lost, same] using lost
  | @produced j count pc result inCall returned =>
      by_cases same : i = j
      · subst same
        obtain ⟨_, unreturned, _⟩ := lost.result_eq_none standings inCall
        rw [unreturned] at returned
        contradiction
      · simpa [Lost, same] using lost

theorem Lost.exec (reachable : (system m cores rounds).Reachable state)
    (lost : state.Lost cores i) {moves : List (Move m)}
    (run : (system m cores rounds).exec state moves = some next) :
    (system m cores rounds).Reachable next ∧ next.Lost cores i := by
  induction moves generalizing state with
  | nil =>
      cases run
      exact ⟨reachable, lost⟩
  | cons move rest ih =>
      obtain ⟨middle, step, restRun⟩ := Option.bind_eq_some_iff.mp run
      exact ih (reachable.step step) (lost.step reachable step) restRun

theorem Lost.not_canComplete (reachable : (system m cores rounds).Reachable state)
    (lost : state.Lost cores i) : ¬ CanComplete cores rounds state i count := by
  rintro ⟨moves, next, run, completed⟩
  obtain ⟨nextReachable, nextLost⟩ := lost.exec reachable run
  have unreturned := (nextLost.result_eq_none (standings_of_reachable nextReachable) completed).2.1
  contradiction

theorem exec_of_step {move : Move m} (step : (system m cores rounds).step state move = some next)
    (rest : List (Move m)) :
    (system m cores rounds).exec state (move :: rest) =
      (system m cores rounds).exec next rest := by
  rw [Transition.System.exec_cons, step]
  rfl

theorem step_produce {choice : Choice Unit} {out : Outcome 0 0 Unit}
    (inCall : state.produces i = some (count, pc))
    (callStep : (wakeupProduce count).step 0 () (state.wakeup i) pc choice = some out) :
    state.step (.produce i choice) = some { state with
      wakeup := Function.update state.wakeup i out.sem
      produces := Function.update state.produces i (some (count, out.pc)) } := by
  simp [Workers.step, inCall, callStep]

/-- A worker whose count fits has ended its `produce`, or the exchange that it is
about to make ends it. -/
theorem canComplete_of_commit (reachable : (system m cores rounds).Reachable state)
    (inCall : state.produces i = some (count, pc)) (loaded : pc ≠ .load)
    (fits : handedOut (state.context.processes i).child.returns ≤ (newWakeup cores).max) :
    CanComplete cores rounds state i count := by
  have standings := standings_of_reachable reachable
  have small := newWakeup_max_lt cores
  have here := standings.standing i
  rw [← standings.max i] at fits small
  rw [inCall] at here
  cases here with
  | done _ _ _ => exact ⟨[], state, rfl, inCall⟩
  | stuck _ _ _ full _ _ => exact absurd fits full
  | free _ _ _ bounded _ next =>
      obtain rfl := next.resolve_left loaded
      have unflagged := hasWaiter_of_lt (lt_of_le_max small bounded)
      have callStep : (wakeupProduce count).step 0 () (state.wakeup i)
          (.commit (state.wakeup i).count) .run = some
            ⟨{ state.wakeup i with
              count := (wakeupProduce count).op.apply (wakeupProduce count).v
                (amountOf (state.wakeup i).count) }, .returned true, some .committed⟩ := by
        simp [Call.step, unflagged]
      have step : (system m cores rounds).step state (.produce i .run) = some _ :=
        step_produce inCall callStep
      exact ⟨[.produce i .run], _, exec_of_step step [], Function.update_self ..⟩

theorem branch_ne_load (call : Call) (max cur : U32) : call.branch max cur ≠ .load := by
  unfold Call.branch
  split
  · simp
  · split <;> simp

theorem canComplete_of_fits (reachable : (system m cores rounds).Reachable state)
    (inCall : state.produces i = some (count, pc))
    (fits : handedOut (state.context.processes i).child.returns ≤ (newWakeup cores).max) :
    CanComplete cores rounds state i count := by
  by_cases loaded : pc = .load
  · subst loaded
    have step : (system m cores rounds).step state (.produce i .run) = some _ :=
      step_produce inCall rfl
    obtain ⟨moves, next, run, completed⟩ := canComplete_of_commit (reachable.step step)
      (Function.update_self ..) (branch_ne_load _ _ _) fits
    exact ⟨.produce i .run :: moves, next, (exec_of_step step moves).trans run, completed⟩
  · exact canComplete_of_commit reachable inCall loaded fits

end Reachable

/-- The counts that a worker has taken are the first ones. -/
theorem returns_initial_rounds {cores : Nat} {rounds : List U32} {state : Workers m}
    (reachable : (system m cores rounds).Reachable state) (i : Fin m) :
    (state.context.processes i).child.returns <+: rounds := by
  obtain ⟨_, handshake, projects⟩ :=
    (Context.context_refines_handshake m rounds i).reachable (context_reachable reachable)
  obtain ⟨barrier, barrierReachable, follows⟩ :=
    (handshake_refines_barrier rounds).reachable handshake
  have delivered := follows.child.delivered.1
  rw [projects] at delivered
  exact delivered.trans
    (Barrier.released_append_pending barrierReachable ▸ List.prefix_append _ _)

theorem newWakeup_max (cores : Nat) : (newWakeup cores).max.toNat = cores % 2 ^ 31 := by
  change (amountOf (BitVec.ofNat 32 cores)).toNat = cores % 2 ^ 31
  rw [amountOf_toNat, BitVec.toNat_ofNat]
  omega

/-- A worker that produces the count of a round can complete that call exactly
where the counts of the rounds so far, added up as `u32`s, are at most the number
of cores. -/
theorem produce_completes_iff (m cores : Nat) (rounds : List U32) (state : Workers m)
    (reachable : (system m cores rounds).Reachable state) (i : Fin m) (count : U32) (pc : Pc)
    (inCall : state.produces i = some (count, pc)) :
    (state.context.processes i).child.returns <+: rounds ∧
      (CanComplete cores rounds state i count ↔
        ((state.context.processes i).child.returns.map BitVec.toNat).sum % 2 ^ 32 ≤
          cores % 2 ^ 31) := by
  refine ⟨returns_initial_rounds reachable i, ?_⟩
  rw [← handedOut_toNat, ← newWakeup_max, ← BitVec.le_def]
  constructor
  · intro completes
    by_contra full
    have lost : state.Lost cores i := Or.inr ⟨by simp [inCall], full⟩
    exact lost.not_canComplete reachable completes
  · intro fits
    exact canComplete_of_fits reachable inCall fits

/-! ## Two complexes with one core each -/

section TwoWorkers

/-- The parent goes on to its next statement. -/
def parentProceeds : Move 2 :=
  .context (.parent .proceed)

/-- The parent makes a call that does not wait. -/
def parentCall : List (Move 2) :=
  [.context (.parent (.sem .run)), .context (.parent (.sem .run)), parentProceeds]

/-- A worker makes a call that does not wait. -/
def childCall (i : Fin 2) : List (Move 2) :=
  let run := Move.context (.child i (.turn (.sem .run)))
  [run, run, .context (.child i (.turn .proceed))]

/-- A worker calls `get_iters` and reports that it is ready. -/
def arrive (i : Fin 2) : List (Move 2) :=
  .context (.child i .call) :: childCall i

/-- A worker takes its count and returns from `get_iters`. -/
def depart (i : Fin 2) : List (Move 2) :=
  childCall i ++ [.context (.child i (.turn .proceed))]

/-- The parent creates a worker, and the worker arrives. -/
def createOne (i : Fin 2) : List (Move 2) :=
  parentProceeds :: arrive i ++ parentCall

/-- The parent starts both workers. -/
def startBoth : List (Move 2) :=
  let start := parentProceeds :: parentProceeds :: parentCall
  parentProceeds :: start ++ start

/-- The parent waits for both workers. -/
def waitBoth : List (Move 2) :=
  let wait := parentProceeds :: parentCall ++ [parentProceeds]
  wait ++ wait ++ [parentProceeds]

/-- A worker takes its count, produces it and asks for the next one. -/
def roundOf (i : Fin 2) : List (Move 2) :=
  depart i ++ [.produce i .run, .produce i .run, .produced i] ++ arrive i

/-- A round of one iteration, after which worker 0 takes the count 2 and goes to
sleep in its `produce`. -/
def secondRound : List (Move 2) :=
  createOne 0 ++ createOne 1 ++ startBoth ++ roundOf 0 ++ roundOf 1 ++ waitBoth ++
    startBoth ++ depart 0 ++ List.replicate 4 (.produce 0 .run)

/-- Worker 0 is about to produce the count of the first round. -/
def firstRound : List (Move 2) :=
  createOne 0 ++ createOne 1 ++ startBoth ++ depart 0

theorem produce_completes_iff_firstRound :
    ∃ state, (system 2 2 [1, 2]).exec (initial 2 2 [1, 2]) firstRound = some state ∧
      (state.context.processes 0).child.returns <+: [1, 2] ∧
        (CanComplete 2 [1, 2] state 0 1 ↔
          ((state.context.processes 0).child.returns.map BitVec.toNat).sum % 2 ^ 32 ≤
            2 % 2 ^ 31) := by
  have run : ((system 2 2 [1, 2]).exec (initial 2 2 [1, 2]) firstRound).any
      (fun state => state.produces 0 == some (1, .load)) = true := by
    decide
  obtain ⟨state, ends, here⟩ := (Option.any_eq_true _ _).mp run
  have reachable : (system 2 2 [1, 2]).Reachable state :=
    (Transition.System.Reachable.init rfl).of_exec ends
  exact ⟨state, ends, produce_completes_iff 2 2 [1, 2] state reachable 0 1 .load (eq_of_beq here)⟩

/-- A metric whose first call takes 1.5 s. -/
def slowFirst : Nat → Nat → Bench.Sample Empty ℚ :=
  fun _ _ => ⟨.ok 0, 1500000000⟩

/-- After a first round of 1.5 s `converge` passes the counts 1 and 2, and with two
cores worker 0 never ends its second `produce`. -/
theorem second_produce_blocked :
    Bench.converge Bench.exactScale (Bench.limits (some (Bench.fromSecs 1))
        (some (Bench.fromSecs 30)) (some 0.95)) slowFirst 0 = ⟨1, 0, none⟩ ∧
      Bench.converge Bench.exactScale (Bench.limits (some (Bench.fromSecs 1))
        (some (Bench.fromSecs 30)) (some 0.95)) slowFirst 1 = ⟨2, 1500000000, none⟩ ∧
        ∃ state, (system 2 2 [1, 2]).Reachable state ∧
          state.produces 0 = some (2, .asleep 0) ∧ ¬ CanComplete 2 [1, 2] state 0 2 := by
  refine ⟨rfl, ?_, ?_⟩
  · have below : ¬ (0.95 : ℚ) ≤ 0 := by
      norm_num
    simp [Bench.converge, slowFirst, Bench.verdict, Bench.limits, below]
    decide
  · have run : ((system 2 2 [1, 2]).exec (initial 2 2 [1, 2]) secondRound).any
        (fun state => state.produces 0 == some (2, .asleep 0) &&
          ! decide (handedOut (state.context.processes 0).child.returns ≤ 2)) = true := by
      decide
    obtain ⟨state, reachable, here⟩ := Transition.System.exists_reachable_of_exec _ _ rfl run
    simp only [Bool.and_eq_true, beq_iff_eq, Bool.not_eq_true', decide_eq_false_iff_not] at here
    refine ⟨state, reachable, here.1, ?_⟩
    apply Lost.not_canComplete reachable
    exact Or.inr ⟨by simp [here.1], here.2⟩

end TwoWorkers

end Workers

end Schtest.Topology
