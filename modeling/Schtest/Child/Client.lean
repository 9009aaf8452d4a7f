import Schtest.Child.Calls

/-!
# Programs with one child

A program that starts at most one child and calls the methods of its handle one at a
time.  Between the answers of the system it is at a place of its own, and where a
call has returned it goes on from there.
-/

namespace Schtest.Child

universe u v w x

variable {ι : Type u} {Signal : Type v} {κ : Type w} {ε : Type x}

/-- The place of the program, its child, and what it has done, newest first. -/
structure Client (ι : Type u) (Signal : Type v) (κ : Type w) (ε : Type x) where
  pc : κ
  child : Option (ι × Handle ι Signal)
  log : List ε

/-- Where a program at a place goes on with the handle, and what it logs. -/
abbrev Resume (ι : Type u) (Signal : Type v) (κ : Type w) (ε : Type x) :=
  κ → Handle ι Signal → κ × List ε

namespace Client

/-- The handle has taken a step while the program is at this place. -/
def withHandle (client : Client ι Signal κ ε) (resume : Resume ι Signal κ ε) (pc : κ) (pid : ι)
    (handle : Handle ι Signal) : Client ι Signal κ ε where
  pc := (resume pc handle).1
  child := some (pid, handle)
  log := (resume pc handle).2 ++ client.log

/-- A new child. -/
def spawn (client : Client ι Signal κ ε) (pc : κ) (pid : ι) (event : ε) : Client ι Signal κ ε where
  pc := pc
  child := some (pid, ⟨none, .idle, []⟩)
  log := event :: client.log

variable [DecidableEq ι] [ToString Signal]

/-- The handle takes a step, and the program goes on at `pc`. -/
def act (sigkill : Signal) (resume : Resume ι Signal κ ε) (client : Client ι Signal κ ε) (pc : κ)
    (action : HandleAction ι Signal) : Option (Client ι Signal κ ε) :=
  client.child.bind fun (pid, handle) =>
    (handleStep pid sigkill handle action).map fun next =>
      client.withHandle resume pc pid next

/-- An answer in the call that the program is in. -/
def answer (sigkill : Signal) (resume : Resume ι Signal κ ε) (client : Client ι Signal κ ε)
    (action : HandleAction ι Signal) : Option (Client ι Signal κ ε) :=
  if action.isAnswer then client.act sigkill resume client.pc action else none

variable {sigkill : Signal} {resume : Resume ι Signal κ ε} {client next : Client ι Signal κ ε}

theorem act_eq_some_iff {pc : κ} {action : HandleAction ι Signal} :
    client.act sigkill resume pc action = some next ↔
      ∃ pid handle handleNext, client.child = some (pid, handle) ∧
        handleStep pid sigkill handle action = some handleNext ∧
        next = client.withHandle resume pc pid handleNext := by
  simp only [act, Option.bind_eq_some_iff, Option.map_eq_some_iff, Prod.exists]
  constructor
  · rintro ⟨pid, handle, child, handleNext, step, rfl⟩
    exact ⟨pid, handle, handleNext, child, step, rfl⟩
  · rintro ⟨pid, handle, handleNext, child, step, rfl⟩
    exact ⟨pid, handle, child, handleNext, step, rfl⟩

theorem answer_eq_some_iff {action : HandleAction ι Signal} :
    client.answer sigkill resume action = some next ↔
      action.isAnswer = true ∧ client.act sigkill resume client.pc action = some next := by
  unfold answer
  split
  · simp_all
  · simp_all

/-- The program has the handle of every child that it started. -/
structure Owned (sigkill : Signal) (spawned : ι → ε) (client : Client ι Signal κ ε) : Prop where
  handles : ∀ pid handle, client.child = some (pid, handle) →
    (handleSystem pid sigkill).Reachable handle
  owns : ∀ pid, spawned pid ∈ client.log → ∃ handle, client.child = some (pid, handle)

variable {spawned : ι → ε}

theorem Owned.init (pc : κ) :
    (⟨pc, none, []⟩ : Client ι Signal κ ε).Owned sigkill spawned where
  handles _ _ found := by cases found
  owns _ member := by cases member

theorem Owned.quiet (owned : client.Owned sigkill spawned) (child : next.child = client.child)
    (log : ∀ pid, spawned pid ∈ next.log → spawned pid ∈ client.log) :
    next.Owned sigkill spawned where
  handles pid handle here := owned.handles pid handle (child ▸ here)
  owns pid member := by
    rw [child]
    exact owned.owns pid (log pid member)

theorem Owned.withHandle (owned : client.Owned sigkill spawned) {pid : ι}
    {handle handleNext : Handle ι Signal} (child : client.child = some (pid, handle))
    {action : HandleAction ι Signal}
    (step : handleStep pid sigkill handle action = some handleNext) (pc : κ)
    (silent : ∀ pid handle, spawned pid ∉ (resume pc handle).2) :
    (client.withHandle resume pc pid handleNext).Owned sigkill spawned where
  handles pid' handle' here := by
    cases here
    exact (owned.handles pid handle child).step step
  owns pid' member := by
    have older := (List.mem_append.mp member).resolve_left (silent pid' handleNext)
    obtain ⟨handle', owns⟩ := owned.owns pid' older
    cases child.symm.trans owns
    exact ⟨handleNext, rfl⟩

theorem Owned.spawn (fresh : ∀ pid, spawned pid ∉ client.log)
    (injective : Function.Injective spawned) (pc : κ) (pid : ι) :
    (client.spawn pc pid (spawned pid)).Owned sigkill spawned where
  handles pid' handle' here := by
    cases here
    exact .init rfl
  owns pid' member := by
    rcases List.mem_cons.mp member with same | older
    · cases injective same
      exact ⟨_, rfl⟩
    · exact absurd older (fresh pid')

theorem Owned.phase (owned : client.Owned sigkill spawned) {pid : ι} {handle : Handle ι Signal}
    (child : client.child = some (pid, handle)) : Phase pid handle :=
  phase_of_reachable (owned.handles pid handle child)

/-- The end of a child whose handle is dropped has been reported. -/
theorem Owned.concluded (owned : client.Owned sigkill spawned) {pid : ι}
    (started : spawned pid ∈ client.log)
    (dropped : ∀ pid handle, client.child = some (pid, handle) → handle.pc = .dropped) :
    ∃ handle verdict, client.child = some (pid, handle) ∧ Concluded pid verdict handle := by
  obtain ⟨handle, child⟩ := owned.owns pid started
  obtain ⟨verdict, concluded⟩ := concluded_of_dropped (owned.handles pid handle child)
    (dropped pid handle child)
  exact ⟨handle, verdict, child, concluded⟩

end Client

end Schtest.Child
