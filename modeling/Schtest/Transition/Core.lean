import Mathlib.Algebra.GroupWithZero.Nat
import Mathlib.Logic.Function.Basic

/-!
# Labelled transition systems

A system performs actions one at a time; an action that is disabled in a state
yields `none`.  Runs are finite.  Reachability is relative to a condition `ok`
on the steps of the run, so that a property which only holds of well-behaved
runs is stated with the same definitions as an unconditional one.
-/

namespace Schtest.Transition

universe u v w x

/-- A labelled transition system with executable, partial steps. -/
structure System (σ : Type u) (α : Type v) where
  init : σ → Prop
  step : σ → α → Option σ

namespace System

variable {σ : Type u} {α : Type v} (sys : System σ α)

/-- Perform the actions in order, failing at the first disabled one. -/
def exec : σ → List α → Option σ
  | state, [] => some state
  | state, action :: rest => (sys.step state action).bind fun next => exec next rest

/-- Perform the actions in order, failing also where the condition fails. -/
def execUnder (ok : σ → α → Prop) [∀ state action, Decidable (ok state action)] :
    σ → List α → Option σ
  | state, [] => some state
  | state, action :: rest =>
      if ok state action then
        (sys.step state action).bind fun next => execUnder ok next rest
      else none

@[simp]
theorem exec_nil (state : σ) : sys.exec state [] = some state :=
  rfl

theorem exec_cons (state : σ) (action : α) (rest : List α) :
    sys.exec state (action :: rest) =
      (sys.step state action).bind fun next => sys.exec next rest :=
  rfl

/-- States reached from an initial state by steps that all satisfy `ok`. -/
inductive ReachableUnder (ok : σ → α → Prop) : σ → Prop
  | init {state : σ} : sys.init state → ReachableUnder ok state
  | step {state next : σ} {action : α} :
      ReachableUnder ok state → ok state action →
      sys.step state action = some next → ReachableUnder ok next

/-- States reached by an arbitrary run. -/
def Reachable (state : σ) : Prop :=
  sys.ReachableUnder (fun _ _ => True) state

/-- Some action is enabled. -/
def Enabled (state : σ) (action : α) : Prop :=
  (sys.step state action).isSome

variable {sys} {ok : σ → α → Prop}

/-- An inductive invariant holds in every state the run reaches.  The
preservation premise may use that the source state is itself reachable, so
that invariants can be established one after another. -/
theorem ReachableUnder.invariant (inv : σ → Prop)
    (base : ∀ state, sys.init state → inv state)
    (preserve : ∀ state action next, sys.ReachableUnder ok state → ok state action →
      sys.step state action = some next → inv state → inv next)
    {state : σ} (reachable : sys.ReachableUnder ok state) : inv state := by
  induction reachable with
  | init initial => exact base _ initial
  | step before allowed step ih => exact preserve _ _ _ before allowed step ih

/-- Weakening the condition on steps only adds runs. -/
theorem ReachableUnder.mono {ok' : σ → α → Prop}
    (weaker : ∀ state action, ok state action → ok' state action)
    {state : σ} (reachable : sys.ReachableUnder ok state) :
    sys.ReachableUnder ok' state := by
  induction reachable with
  | init initial => exact .init initial
  | step _ allowed step ih => exact .step ih (weaker _ _ allowed) step

theorem ReachableUnder.reachable {state : σ} (reachable : sys.ReachableUnder ok state) :
    sys.Reachable state :=
  reachable.mono fun _ _ _ => trivial

theorem Reachable.init {state : σ} (initial : sys.init state) : sys.Reachable state :=
  ReachableUnder.init initial

theorem Reachable.step {state next : σ} {action : α} (reachable : sys.Reachable state)
    (step : sys.step state action = some next) : sys.Reachable next :=
  ReachableUnder.step reachable trivial step

/-- Unconditional form of `ReachableUnder.invariant`. -/
theorem Reachable.invariant (inv : σ → Prop)
    (base : ∀ state, sys.init state → inv state)
    (preserve : ∀ state action next, sys.Reachable state →
      sys.step state action = some next → inv state → inv next)
    {state : σ} (reachable : sys.Reachable state) : inv state :=
  ReachableUnder.invariant inv base
    (fun state action next before _ step => preserve state action next before step) reachable

/-- The end state of an executable run is reachable, under any condition that
its actions satisfy in every state. -/
theorem ReachableUnder.of_exec {source target : σ} {actions : List α}
    (reachable : sys.ReachableUnder ok source)
    (allowed : ∀ state, ∀ action ∈ actions, ok state action)
    (run : sys.exec source actions = some target) : sys.ReachableUnder ok target := by
  induction actions generalizing source with
  | nil =>
      cases run
      exact reachable
  | cons action rest ih =>
      rw [exec_cons, Option.bind_eq_some_iff] at run
      obtain ⟨next, step, restRun⟩ := run
      refine ih (reachable.step (allowed _ _ List.mem_cons_self) step) ?_ restRun
      exact fun state other member => allowed state other (List.mem_cons_of_mem _ member)

/-- A run under a condition begins with a step under the condition. -/
theorem exists_step_of_execUnder_cons [∀ state action, Decidable (ok state action)]
    {source target : σ} {action : α} {rest : List α}
    (run : sys.execUnder ok source (action :: rest) = some target) :
    ok source action ∧ ∃ next, sys.step source action = some next ∧
      sys.execUnder ok next rest = some target := by
  rw [execUnder] at run
  split at run
  · rename_i allowed
    exact ⟨allowed, Option.bind_eq_some_iff.mp run⟩
  · contradiction

/-- A run performed under its condition is a run under the condition. -/
theorem ReachableUnder.of_execUnder [∀ state action, Decidable (ok state action)]
    {source target : σ} {actions : List α} (reachable : sys.ReachableUnder ok source)
    (run : sys.execUnder ok source actions = some target) : sys.ReachableUnder ok target := by
  induction actions generalizing source with
  | nil =>
      cases run
      exact reachable
  | cons action rest ih =>
      obtain ⟨allowed, next, step, restRun⟩ := exists_step_of_execUnder_cons run
      exact ih (reachable.step allowed step) restRun

@[simp]
theorem execUnder_true (source : σ) (actions : List α) :
    sys.execUnder (fun _ _ => True) source actions = sys.exec source actions := by
  induction actions generalizing source with
  | nil => rfl
  | cons action rest ih => simp only [execUnder, exec_cons, ih, if_true]

section Paid

variable [∀ state action, Decidable (ok state action)] {source target : σ} {actions : List α}

/-- What no step lowers, no run lowers. -/
theorem le_of_execUnder (log : σ → Nat)
    (grows : ∀ state action next, sys.step state action = some next → log state ≤ log next)
    (run : sys.execUnder ok source actions = some target) : log source ≤ log target := by
  induction actions generalizing source with
  | nil =>
      cases run
      exact Nat.le_refl _
  | cons action rest ih =>
      obtain ⟨_, next, step, restRun⟩ := exists_step_of_execUnder_cons run
      exact Nat.le_trans (grows _ _ _ step) (ih restRun)

/-- Where every step adds to the log or pays for itself, a run that adds nothing
to the log has no more steps that cost than it can pay for. -/
theorem countP_le_of_pays (inv : σ → Prop) (log rank : σ → Nat) (work : α → Bool)
    (grows : ∀ state action next, sys.step state action = some next → log state ≤ log next)
    (pays : ∀ state action next, inv state → ok state action →
      sys.step state action = some next → log state < log next ∨
        inv next ∧ rank next + (if work action then 1 else 0) ≤ rank state)
    (start : inv source) (run : sys.execUnder ok source actions = some target)
    (unchanged : log target = log source) : actions.countP work ≤ rank source := by
  induction actions generalizing source with
  | nil => exact Nat.zero_le _
  | cons action rest ih =>
      obtain ⟨allowed, next, step, restRun⟩ := exists_step_of_execUnder_cons run
      have grown := le_of_execUnder log grows restRun
      rcases pays _ _ _ start allowed step with logged | ⟨still, paid⟩
      · omega
      · have older := grows _ _ _ step
        have counted := ih still restRun (by omega)
        rw [List.countP_cons]
        omega

end Paid

theorem Reachable.of_exec {source target : σ} {actions : List α}
    (reachable : sys.Reachable source) (run : sys.exec source actions = some target) :
    sys.Reachable target :=
  ReachableUnder.of_exec reachable (fun _ _ _ => trivial) run

/-- A run that completes, checked by evaluation. -/
theorem exists_exec_of_isSome {source : σ} (actions : List α) (initial : sys.init source)
    (completes : (sys.exec source actions).isSome = true) :
    ∃ target, sys.exec source actions = some target ∧ sys.Reachable target := by
  obtain ⟨target, run⟩ := Option.isSome_iff_exists.mp completes
  exact ⟨target, run, (Reachable.init initial).of_exec run⟩

theorem exists_execUnder_of_isSome (ok : σ → α → Prop) [∀ state action, Decidable (ok state action)]
    {source : σ} (actions : List α) (initial : sys.init source)
    (completes : (sys.execUnder ok source actions).isSome = true) :
    ∃ target, sys.execUnder ok source actions = some target ∧ sys.ReachableUnder ok target := by
  obtain ⟨target, run⟩ := Option.isSome_iff_exists.mp completes
  exact ⟨target, run, (ReachableUnder.init initial).of_execUnder run⟩

/-- A run that ends, checked by evaluation, in a state with property `p`. -/
theorem exists_reachable_of_exec {source : σ} (actions : List α) (p : σ → Bool)
    (initial : sys.init source) (run : (sys.exec source actions).any p = true) :
    ∃ target, sys.Reachable target ∧ p target = true := by
  cases exec : sys.exec source actions with
  | none => simp [exec] at run
  | some target =>
      rw [exec] at run
      exact ⟨target, (Reachable.init initial).of_exec exec, run⟩

end System

/-! ## Refinement -/

/-- Every step of `concrete` is matched by at most one step of `abstract`,
along a relation `rel` that may use reachability of the concrete state. -/
structure Refinement {σ : Type u} {α : Type v} {τ : Type w} {β : Type x}
    (concrete : System σ α) (abstract : System τ β) (rel : σ → τ → Prop) : Prop where
  init : ∀ state, concrete.init state → ∃ spec, abstract.init spec ∧ rel state spec
  step : ∀ state action next spec, concrete.Reachable state →
    concrete.step state action = some next → rel state spec →
    rel next spec ∨ ∃ event specNext, abstract.step spec event = some specNext ∧ rel next specNext

/-- A reachable concrete state is related to a reachable abstract one. -/
theorem Refinement.reachable {σ : Type u} {α : Type v} {τ : Type w} {β : Type x}
    {concrete : System σ α} {abstract : System τ β} {rel : σ → τ → Prop}
    (refinement : Refinement concrete abstract rel) {state : σ}
    (reachable : concrete.Reachable state) :
    ∃ spec, abstract.Reachable spec ∧ rel state spec := by
  refine System.Reachable.invariant
    (fun state => ∃ spec, abstract.Reachable spec ∧ rel state spec) ?_ ?_ reachable
  · intro state initial
    obtain ⟨spec, specInit, related⟩ := refinement.init state initial
    exact ⟨spec, .init specInit, related⟩
  · rintro state action next before step ⟨spec, specReachable, related⟩
    rcases refinement.step state action next spec before step related with
      stutter | ⟨event, specNext, specStep, relatedNext⟩
    · exact ⟨spec, specReachable, stutter⟩
    · exact ⟨specNext, specReachable.step specStep, relatedNext⟩

/-! ## Logs

The newest event of a log stands first. -/

/-- Every event after a marked one is final. -/
def FinalAfter {ε : Type u} (marked final : ε → Prop) : List ε → Prop
  | [] => True
  | event :: older =>
      ((∃ mark ∈ older, marked mark) → final event) ∧ FinalAfter marked final older

section FinalAfter

variable {ε : Type u} {marked final : ε → Prop}

theorem finalAfter_of_unmarked {log : List ε} (unmarked : ∀ event ∈ log, ¬ marked event) :
    FinalAfter marked final log := by
  induction log with
  | nil => trivial
  | cons event older ih =>
      obtain ⟨-, before⟩ := List.forall_mem_cons.mp unmarked
      constructor
      · rintro ⟨mark, member, isMarked⟩
        exact absurd isMarked (before mark member)
      · exact ih before

/-- The first mark may be the newest event. -/
theorem finalAfter_cons_of_unmarked {older : List ε} (event : ε)
    (unmarked : ∀ event ∈ older, ¬ marked event) : FinalAfter marked final (event :: older) := by
  constructor
  · rintro ⟨mark, member, isMarked⟩
    exact absurd isMarked (unmarked mark member)
  · exact finalAfter_of_unmarked unmarked

theorem FinalAfter.cons {log : List ε} {event : ε} (after : FinalAfter marked final log)
    (isFinal : final event) : FinalAfter marked final (event :: log) :=
  ⟨fun _ => isFinal, after⟩

theorem FinalAfter.of_append {newer older : List ε} {mark : ε}
    (after : FinalAfter marked final (newer ++ mark :: older)) (isMarked : marked mark) :
    ∀ event ∈ newer, final event := by
  induction newer with
  | nil => exact List.forall_mem_nil _
  | cons event rest ih =>
      rw [List.forall_mem_cons]
      constructor
      · exact after.1 ⟨mark, List.mem_append_right rest List.mem_cons_self, isMarked⟩
      · exact ih after.2

end FinalAfter

/-! ## Numbered parties -/

/-- Where a run is written out, its parties are the literals of `Fin 1` or `Fin 2`. -/
instance neZero_one : NeZero 1 :=
  ⟨Nat.succ_ne_zero 0⟩

instance neZero_two : NeZero 2 :=
  ⟨Nat.succ_ne_zero 1⟩

end Schtest.Transition
