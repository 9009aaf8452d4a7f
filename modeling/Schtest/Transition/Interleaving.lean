import Schtest.Transition.Core

/-!
# Threads over shared memory

A program gives every thread an atomic step on the shared state and its own
local state.  A configuration interleaves any number of threads.  The main
rule is the one of noninterference: a global invariant and one assertion per
thread hold throughout every run, provided each thread's step keeps the
invariant and its own assertion and does not interfere with the assertion of
another thread.
-/

namespace Schtest.Transition

universe u v w x

/-- The shared state together with the local state of every thread. -/
structure Threads (ι : Type u) (σ : Type v) (τ : Type w) where
  shared : σ
  locals : ι → τ

/-- Code run by every thread: initial states and one atomic step, which sees
the identity of the thread, the shared state and its own local state. -/
structure Program (ι : Type u) (σ : Type v) (τ : Type w) (α : Type x) where
  initShared : σ → Prop
  initLocal : ι → τ → Prop
  step : ι → σ → τ → α → Option (σ × τ)

namespace Program

variable {ι : Type u} {σ : Type v} {τ : Type w} {α : Type x} [DecidableEq ι]
variable (program : Program ι σ τ α)

/-- All interleavings of the threads' steps. -/
def system : System (Threads ι σ τ) (ι × α) where
  init config := program.initShared config.shared ∧ ∀ i, program.initLocal i (config.locals i)
  step config action :=
    (program.step action.1 config.shared (config.locals action.1) action.2).map fun result =>
      ⟨result.1, Function.update config.locals action.1 result.2⟩

variable {program}

/-- A step of the interleaving is a step of one thread; the other threads keep
their local states. -/
theorem system_step_eq_some_iff {config next : Threads ι σ τ} {i : ι} {action : α} :
    program.system.step config (i, action) = some next ↔
      ∃ shared localNext, program.step i config.shared (config.locals i) action =
          some (shared, localNext) ∧
        next = ⟨shared, Function.update config.locals i localNext⟩ := by
  simp only [system, Option.map_eq_some_iff, Prod.exists]
  exact exists_congr fun shared => exists_congr fun localNext =>
    and_congr_right fun _ => eq_comm

variable {ok : Threads ι σ τ → ι × α → Prop}

/-- The rule of noninterference. -/
theorem noninterference (inv : σ → Prop) (assertion : ι → σ → τ → Prop)
    (initShared : ∀ shared, program.initShared shared → inv shared)
    (initLocal : ∀ i shared localState, program.initShared shared →
      program.initLocal i localState → assertion i shared localState)
    (own : ∀ (config : Threads ι σ τ) i action shared localNext, ok config (i, action) →
      inv config.shared → (∀ j, assertion j config.shared (config.locals j)) →
      program.step i config.shared (config.locals i) action = some (shared, localNext) →
      inv shared ∧ assertion i shared localNext)
    (other : ∀ (config : Threads ι σ τ) i action shared localNext j, j ≠ i →
      ok config (i, action) → inv config.shared →
      (∀ j, assertion j config.shared (config.locals j)) →
      program.step i config.shared (config.locals i) action = some (shared, localNext) →
      assertion j shared (config.locals j))
    {config : Threads ι σ τ} (reachable : program.system.ReachableUnder ok config) :
    inv config.shared ∧ ∀ i, assertion i config.shared (config.locals i) := by
  refine System.ReachableUnder.invariant
    (fun config => inv config.shared ∧ ∀ i, assertion i config.shared (config.locals i))
    ?_ ?_ reachable
  · rintro config ⟨sharedInit, localInit⟩
    exact ⟨initShared _ sharedInit, fun i => initLocal i _ _ sharedInit (localInit i)⟩
  · rintro config ⟨i, action⟩ next _ allowed step ⟨invariant, assertions⟩
    obtain ⟨shared, localNext, threadStep, rfl⟩ := system_step_eq_some_iff.mp step
    obtain ⟨invariantNext, ownNext⟩ :=
      own config i action shared localNext allowed invariant assertions threadStep
    refine ⟨invariantNext, fun j => ?_⟩
    by_cases same : j = i
    · subst same
      simpa using ownNext
    · simpa [same] using
        other config i action shared localNext j same allowed invariant assertions threadStep

end Program

end Schtest.Transition
