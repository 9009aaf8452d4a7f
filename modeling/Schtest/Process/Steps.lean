import Schtest.Process.Core

/-!
# What one step of a party can do

Inversion of `childStep` and `parentStep`, and the exchange of a token on a
semaphore of capacity one.
-/

namespace Schtest.Process

open Schtest.Semaphore Schtest.Transition

/-- The possible effects of a step of the child. -/
inductive ChildEffect (proc : Process) : Process → Prop
  | work : proc.child.pc = .body → ChildEffect proc proc
  | call : proc.child.pc = .body →
      ChildEffect proc { proc with
        child := { proc.child with pc := .ready .load, calls := proc.child.calls + 1 } }
  | exit : proc.child.pc ≠ .unborn → proc.child.pc ≠ .exited → ChildEffect proc proc.exitChild
  | ready {pc choice out} : proc.child.pc = .ready pc →
      childReadyProduce.step 0 .child proc.ready pc choice = some out →
      ChildEffect proc { proc.setChild (.ready out.pc) with ready := out.sem }
  | readied {result} : proc.child.pc = .ready (.returned result) →
      ChildEffect proc (proc.setChild (.start .load))
  | start {pc choice out} : proc.child.pc = .start pc →
      childStartConsume.step 0 .child proc.start pc choice = some out →
      ChildEffect proc { proc.setChild (.start out.pc) with start := out.sem }
  | started : proc.child.pc = .start (.returned true) → ChildEffect proc (proc.setChild .swap)
  | swap : proc.child.pc = .swap →
      ChildEffect proc { proc with
        child := { proc.child with pc := .body, returns := proc.child.returns ++ [proc.iters] }
        iters := 0 }

theorem childEffect_of_step {proc next : Process} {turn : ChildTurn}
    (step : childStep proc turn = some next) : ChildEffect proc next := by
  unfold childStep at step
  split at step
  case h_1 => -- work
    split at step
    · rename_i body
      cases step
      exact .work body
    · contradiction
  case h_2 => -- call
    split at step
    · rename_i body
      cases step
      exact .call body
    · contradiction
  case h_3 => -- exit
    split at step
    · contradiction
    · rename_i alive
      cases step
      exact .exit (fun unborn => alive (Or.inl unborn)) (fun exited => alive (Or.inr exited))
  case h_4 => -- proceed
    split at step
    · rename_i call atPc
      obtain ⟨result, returned, rfl⟩ := Option.map_eq_some_iff.mp step
      exact .readied (atPc.trans (congrArg ChildPc.ready (Pc.result_eq_some_iff.mp returned)))
    · rename_i call atPc
      obtain ⟨result, returned, rfl⟩ := Option.map_eq_some_iff.mp step
      rw [Pc.result_eq_some_iff] at returned
      subst returned
      cases result with
      | true => exact .started atPc
      | false => -- the closure panics
          exact .exit (by simp [atPc]) (by simp [atPc])
    · rename_i atPc
      cases step
      exact .swap atPc
    · contradiction
  case h_5 => -- a step of the semaphore call
    split at step
    · rename_i atPc
      obtain ⟨out, callStep, rfl⟩ := Option.map_eq_some_iff.mp step
      exact .ready atPc callStep
    · rename_i atPc
      obtain ⟨out, callStep, rfl⟩ := Option.map_eq_some_iff.mp step
      exact .start atPc callStep
    · contradiction

/-- The possible effects of a step of the parent in operation `op`. -/
inductive ParentEffect (proc : Process) (op : ParentOp) (pc : ParentPc) :
    Process → ParentPc → Prop
  | create : pc = .idle → op = .create →
      ParentEffect proc op pc (proc.setChild .body) (.consume .load)
  | start {iters} : pc = .idle → op = .start iters → ParentEffect proc op pc proc (.store iters)
  | wait : pc = .idle → op = .wait → ParentEffect proc op pc proc (.consume .load)
  | store {iters} : pc = .store iters →
      ParentEffect proc op pc { proc with iters := iters } (.produce .load)
  | produce {call choice out} : pc = .produce call →
      startProduce.step 0 .parent proc.start call choice = some out →
      ParentEffect proc op pc { proc with start := out.sem } (.produce out.pc)
  | produced {result} : pc = .produce (.returned result) → ParentEffect proc op pc proc .idle
  | consume {call choice out} : pc = .consume call →
      readyConsume.step 0 .parent proc.ready call choice = some out →
      ParentEffect proc op pc { proc with ready := out.sem } (.consume out.pc)
  | consumed : pc = .consume (.returned true) → ParentEffect proc op pc proc .idle
  | expired : pc = .consume (.returned false) → ParentEffect proc op pc proc .alive
  | dead : pc = .alive → proc.child.pc = .exited → ParentEffect proc op pc proc .failed
  | again : pc = .alive → proc.child.pc ≠ .exited →
      ParentEffect proc op pc proc (.consume .load)

theorem parentEffect_of_step {proc next : Process} {op : ParentOp} {pc pcNext : ParentPc}
    {turn : Turn} (step : parentStep proc op pc turn = some (next, pcNext)) :
    ParentEffect proc op pc next pcNext := by
  unfold parentStep at step
  split at step
  case h_1 => -- proceed
    split at step
    · cases op with
      | create =>
          cases step
          exact .create rfl rfl
      | start iters =>
          cases step
          exact .start rfl rfl
      | wait =>
          cases step
          exact .wait rfl rfl
    · cases step
      exact .store rfl
    · obtain ⟨result, returned, same⟩ := Option.map_eq_some_iff.mp step
      cases same
      exact .produced (congrArg ParentPc.produce (Pc.result_eq_some_iff.mp returned))
    · obtain ⟨result, returned, same⟩ := Option.map_eq_some_iff.mp step
      cases same
      rw [Pc.result_eq_some_iff] at returned
      subst returned
      cases result with
      | true => exact .consumed rfl
      | false => exact .expired rfl
    · cases step
      split
      · rename_i exited
        exact .dead rfl exited
      · rename_i living
        exact .again rfl living
    · contradiction
  case h_2 => -- a step of the semaphore call
    split at step
    · obtain ⟨out, callStep, same⟩ := Option.map_eq_some_iff.mp step
      cases same
      exact .produce rfl callStep
    · obtain ⟨out, callStep, same⟩ := Option.map_eq_some_iff.mp step
      cases same
      exact .consume rfl callStep
    · contradiction

/-- Inversion of a step of the handshake. -/
theorem Handshake.step_cases {state next : Handshake} {move : Move}
    (step : state.step move = some next) :
    (∃ turn procNext, move = .child turn ∧ ChildEffect state.proc procNext ∧
      next = { state with proc := procNext }) ∨
    (∃ turn op rest procNext pcNext, move = .parent turn ∧ state.todo = op :: rest ∧
      ParentEffect state.proc op state.parent procNext pcNext ∧
      next = ⟨procNext, pcNext, remainingOps pcNext (op :: rest)⟩) := by
  unfold Handshake.step at step
  split at step
  case h_1 turn =>
    obtain ⟨procNext, childStep, rfl⟩ := Option.map_eq_some_iff.mp step
    exact Or.inl ⟨turn, procNext, rfl, childEffect_of_step childStep, rfl⟩
  case h_2 turn =>
    split at step
    · contradiction
    · rename_i op rest todo
      obtain ⟨⟨procNext, pcNext⟩, parentStep, rfl⟩ := Option.map_eq_some_iff.mp step
      exact Or.inr ⟨turn, op, rest, procNext, pcNext, rfl, todo,
        parentEffect_of_step parentStep, rfl⟩

/-! ## Well-formed states -/

/-- A call in progress on a semaphore of capacity one without wake timers: the
loaded words are justified by the branches, no slot is read or stamped, and
without a timeout the call does not return `false`. -/
structure InCall (call : Call) (pc : Pc) : Prop where
  valid : pc.Valid call 1
  timerless : pc.Timerless
  unfailed : call.timeout = none → pc.stage ≠ .returned false

theorem InCall.load (call : Call) : InCall call .load :=
  ⟨trivial, trivial, fun _ => by simp [Pc.stage]⟩

theorem InCall.step {call : Call} {tid : Party} {sem : Semaphore 0 0 Party} {pc : Pc}
    {choice : Choice Party} {out : Outcome 0 0 Party} (inCall : InCall call pc)
    (capacity : sem.max = 1) (step : call.step 0 tid sem pc choice = some out) :
    Effect call tid sem pc out.sem out.pc out.event ∧ out.sem.max = 1 ∧ InCall call out.pc := by
  obtain ⟨effect, validNext⟩ := Call.effect_of_step (capacity ▸ inCall.valid) step
  exact ⟨effect, effect.max_eq.trans capacity, capacity ▸ validNext, Call.timerless_of_step step,
    effect.not_expired⟩

/-- The call of the child is valid for its semaphore. -/
def ChildPc.Valid : ChildPc → Prop
  | .ready pc => InCall childReadyProduce pc
  | .start pc => InCall childStartConsume pc
  | _ => True

/-- The call of the parent is valid for its semaphore. -/
def ParentPc.Valid : ParentPc → Prop
  | .produce pc => InCall startProduce pc
  | .consume pc => InCall readyConsume pc
  | _ => True

/-- Both semaphores have capacity one and all calls in progress are valid. -/
structure Handshake.WellFormed (state : Handshake) : Prop where
  start : state.proc.start.max = 1
  ready : state.proc.ready.max = 1
  child : state.proc.child.pc.Valid
  parent : state.parent.Valid

theorem Handshake.WellFormed.preserved {state next : Handshake} {move : Move}
    (step : state.step move = some next) (valid : state.WellFormed) : next.WellFormed := by
  obtain ⟨startMax, readyMax, child, parent⟩ := valid
  rcases step_cases step with ⟨_, procNext, _, effect, rfl⟩ |
    ⟨_, op, rest, procNext, pcNext, _, _, effect, rfl⟩
  · cases effect with
    | work _ => exact ⟨startMax, readyMax, child, parent⟩
    | call _ => exact ⟨startMax, readyMax, InCall.load _, parent⟩
    | exit _ _ => exact ⟨startMax, readyMax, trivial, parent⟩
    | ready atPc callStep =>
        rw [atPc] at child
        obtain ⟨_, maxNext, validNext⟩ := InCall.step child readyMax callStep
        exact ⟨startMax, maxNext, validNext, parent⟩
    | readied _ => exact ⟨startMax, readyMax, InCall.load _, parent⟩
    | start atPc callStep =>
        rw [atPc] at child
        obtain ⟨_, maxNext, validNext⟩ := InCall.step child startMax callStep
        exact ⟨maxNext, readyMax, validNext, parent⟩
    | started _ => exact ⟨startMax, readyMax, trivial, parent⟩
    | swap _ => exact ⟨startMax, readyMax, trivial, parent⟩
  · cases effect with
    | create _ _ => exact ⟨startMax, readyMax, trivial, InCall.load _⟩
    | start _ _ => exact ⟨startMax, readyMax, child, trivial⟩
    | wait _ _ => exact ⟨startMax, readyMax, child, InCall.load _⟩
    | store _ => exact ⟨startMax, readyMax, child, InCall.load _⟩
    | produce atPc callStep =>
        rw [atPc] at parent
        obtain ⟨_, maxNext, validNext⟩ := InCall.step parent startMax callStep
        exact ⟨maxNext, readyMax, child, validNext⟩
    | produced _ => exact ⟨startMax, readyMax, child, trivial⟩
    | consume atPc callStep =>
        rw [atPc] at parent
        obtain ⟨_, maxNext, validNext⟩ := InCall.step parent readyMax callStep
        exact ⟨startMax, maxNext, child, validNext⟩
    | consumed _ => exact ⟨startMax, readyMax, child, trivial⟩
    | expired _ => exact ⟨startMax, readyMax, child, trivial⟩
    | dead _ _ => exact ⟨startMax, readyMax, child, trivial⟩
    | again _ _ => exact ⟨startMax, readyMax, child, InCall.load _⟩

theorem wellFormed_of_reachable {rounds : List U32} {state : Handshake}
    (reachable : (handshakeSystem rounds).Reachable state) : state.WellFormed := by
  refine System.Reachable.invariant Handshake.WellFormed ?_ ?_ reachable
  · rintro state rfl
    have capacity : (Handshake.initial rounds).proc.start.max = 1 := rfl
    exact ⟨capacity, capacity, trivial, trivial⟩
  · intro state move next _ step valid
    exact valid.preserved step

end Schtest.Process
