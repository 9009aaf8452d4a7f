import Schtest.Process.Steps
import Schtest.Semaphore.Amount

/-!
# The handshake is a barrier

What the two semaphores and the iteration count are for: rounds in which the
child arrives, the parent acknowledges it and releases the next count, and the
child departs with that count.  The handshake refines this barrier.  The only
visible steps are the four successful exchanges; everything else a party does,
the futex calls and the parent's timeouts included, stutters.
-/

namespace Schtest.Process

open Schtest.Semaphore Schtest.Transition

universe u

/-! ## The abstract barrier -/

/-- Where a round is. -/
inductive Phase
  /-- The child works on the last released count, or has not started yet. -/
  | working
  /-- The child waits for a count and the parent does not know it yet. -/
  | arrived
  /-- The parent knows that the child waits. -/
  | acknowledged
  /-- The next count is released. -/
  | started
  deriving DecidableEq, Repr

/-- Arrivals the parent has not answered with a release. -/
def Phase.owed : Phase → Nat
  | .working | .started => 0
  | .arrived | .acknowledged => 1

/-- A barrier with the counts released so far and those still to come. -/
structure Barrier (α : Type u) where
  phase : Phase
  released : List α
  pending : List α

namespace Barrier

variable {α : Type u}

/-- The visible steps of a round. -/
inductive Event
  | arrive
  | acknowledge
  | release
  | depart
  deriving DecidableEq, Repr

/-- The order of the events of a round; any other event is refused. -/
def step : Barrier α → Event → Option (Barrier α)
  | ⟨.working, released, pending⟩, .arrive => some ⟨.arrived, released, pending⟩
  | ⟨.arrived, released, pending⟩, .acknowledge => some ⟨.acknowledged, released, pending⟩
  | ⟨.acknowledged, released, count :: pending⟩, .release =>
      some ⟨.started, released ++ [count], pending⟩
  | ⟨.started, released, pending⟩, .depart => some ⟨.working, released, pending⟩
  | _, _ => none

/-- The barrier of the given rounds, before the child has arrived. -/
def system (rounds : List α) : System (Barrier α) Event where
  init barrier := barrier = ⟨.working, [], rounds⟩
  step := step

/-- Counts are released in order, and none is lost or added. -/
theorem released_append_pending {rounds : List α} {barrier : Barrier α}
    (reachable : (system rounds).Reachable barrier) :
    barrier.released ++ barrier.pending = rounds := by
  refine System.Reachable.invariant
    (fun barrier => barrier.released ++ barrier.pending = rounds) ?_ ?_ reachable
  · rintro barrier rfl
    rfl
  · intro barrier event next _ step invariant
    change Barrier.step barrier event = some next at step
    unfold Barrier.step at step
    split at step
    case h_3 released count pending =>
      cases step
      simpa using invariant
    case h_5 => contradiction
    all_goals
      cases step
      exact invariant

end Barrier

/-! ## A semaphore of capacity one -/

/-- The amount of a semaphore of capacity one. -/
def token (full : Bool) : U32 :=
  if full then 1 else 0

variable {S R : Nat} {ι : Type u} [DecidableEq ι]

/-- A step of a call makes its exchange, or leaves amount and exchange alone. -/
theorem exchange_or_quiet {call : Call} {tid : ι} {sem semNext : Semaphore S R ι} {pc next : Pc}
    {event : Option Event} (effect : Effect call tid sem pc semNext next event) :
    (pc.stage.commits = 0 ∧ next.stage.commits = 1 ∧
      call.op.admits sem.max call.v (amountOf sem.count) = true ∧
      semNext.count = call.op.apply call.v (amountOf sem.count)) ∨
    (next.stage.commits = pc.stage.commits ∧ amountOf semNext.count = amountOf sem.count) := by
  have moved := effect.commits_eq
  rcases effect.commit_or_quiet with ⟨committed, admitted, stored⟩ | ⟨quiet, same⟩
  · rw [if_pos committed] at moved
    have bounded := next.stage.commits_le_one
    exact Or.inl ⟨by omega, by omega, admitted, stored⟩
  · rw [if_neg quiet] at moved
    exact Or.inr ⟨moved, same⟩

/-- `consume(1, …)` takes the token, or nothing happens to it. -/
theorem take_token {call : Call} {tid : ι} {sem semNext : Semaphore S R ι} {pc next : Pc}
    {event : Option Event} {full : Bool} (op : call.op = .consume) (one : call.v = 1)
    (holds : amountOf sem.count = token full)
    (effect : Effect call tid sem pc semNext next event) :
    (full = true ∧ pc.stage.commits = 0 ∧ next.stage.commits = 1 ∧
      amountOf semNext.count = token false) ∨
    (next.stage.commits = pc.stage.commits ∧ amountOf semNext.count = token full) := by
  rcases exchange_or_quiet effect with ⟨before, after, admitted, stored⟩ | ⟨same, amount⟩
  · rw [op, one, holds] at admitted stored
    cases full with
    | true => exact Or.inl ⟨rfl, before, after, by rw [stored]; decide⟩
    | false => simp [Op.admits, token] at admitted
  · exact Or.inr ⟨same, amount.trans holds⟩

/-- `produce(1, …)` puts the token, or nothing happens to it. -/
theorem put_token {call : Call} {tid : ι} {sem semNext : Semaphore S R ι} {pc next : Pc}
    {event : Option Event} {full : Bool} (op : call.op = .produce) (one : call.v = 1)
    (capacity : sem.max = 1) (holds : amountOf sem.count = token full)
    (effect : Effect call tid sem pc semNext next event) :
    (full = false ∧ pc.stage.commits = 0 ∧ next.stage.commits = 1 ∧
      amountOf semNext.count = token true) ∨
    (next.stage.commits = pc.stage.commits ∧ amountOf semNext.count = token full) := by
  rcases exchange_or_quiet effect with ⟨before, after, admitted, stored⟩ | ⟨same, amount⟩
  · rw [op, one, holds] at admitted stored
    rw [capacity] at admitted
    cases full with
    | true => simp [Op.admits, token] at admitted
    | false => exact Or.inl ⟨rfl, before, after, by rw [stored]; decide⟩
  · exact Or.inr ⟨same, amount.trans holds⟩

end Schtest.Process
