import Schtest.Semaphore.Effect
import Schtest.Transition.Core

/-!
# The `ping_pong` benchmark

Two processes wake each other through two semaphores of capacity one: each
produces on its own and consumes from that of the other, as often as the count
of the round says.  `get_iters` returns the count of a round once both processes
have asked for it.
-/

namespace Schtest.PingPong

open Schtest.Semaphore

/-! ## The processes -/

/-- The first process produces on `sem1`, the second one on `sem2`. -/
inductive Side
  | first
  | second
  deriving DecidableEq, Repr

namespace Side

/-- The side across. -/
def other : Side → Side
  | .first => .second
  | .second => .first

@[simp]
theorem other_other (side : Side) : side.other.other = side := by
  cases side <;> rfl

@[simp]
theorem other_ne (side : Side) : side.other ≠ side := by
  cases side <;> simp [other]

theorem eq_or_eq_other (s side : Side) : s = side ∨ s = side.other := by
  cases s <;> cases side <;> simp [other]

/-- The semaphore of an operation, named by the process that produces on it. -/
def target (side : Side) : Op → Side
  | .produce => side
  | .consume => side.other

/-- The process that uses a semaphore for an operation. -/
def user (s : Side) : Op → Side
  | .produce => s
  | .consume => s.other

@[simp]
theorem user_target (side : Side) (op : Op) : (side.target op).user op = side := by
  cases op <;> simp [user, target]

theorem user_injective (s : Side) : Function.Injective s.user := by
  intro op op' same
  cases op <;> cases op' <;> cases s <;> simp_all [user, other]

theorem eq_target_of_user_eq {s side : Side} {op : Op} (same : s.user op = side) :
    s = side.target op := by
  cases op <;> simp [user, target, ← same]

end Side

/-- Where a process is. -/
inductive PlayerPc
  | getIters
  /-- In `produce(1, 1, None)` or `consume(1, 1, None)`. -/
  | call (op : Op) (pc : Pc)
  deriving DecidableEq, Repr

/-- A process, with the counts that `get_iters` has returned so far, the
iterations left in this round and the finished ones of all rounds. -/
structure Player where
  pc : PlayerPc
  rounds : Nat
  left : Nat
  finished : Nat
  deriving DecidableEq, Repr

/-- `produce(1, 1, None)` or `consume(1, 1, None)`. -/
def pingCall : Op → Call
  | .produce => produce 1 1 none
  | .consume => consume 1 1 none

/-- The head of the loop. -/
def enter (player : Player) : Player :=
  { player with pc := if player.left = 0 then .getIters else .call .produce .load }

/-- The processes and their semaphores. -/
structure Arena (S R : Nat) where
  sem : Side → Semaphore S R Side
  player : Side → Player

/-- A step of a process: its next statement, or a step of the call it is in. -/
inductive Action
  | next
  | sem (now : Nat) (choice : Choice Side)
  deriving DecidableEq, Repr

/-- A step without failures. -/
def Action.voluntary : Action → Bool
  | .next => true
  | .sem _ choice => choice.voluntary

section Step

variable {S R : Nat}

/-- Replaces the player of a side. -/
def Arena.setPlayer (arena : Arena S R) (side : Side) (player : Player) : Arena S R :=
  { arena with player := Function.update arena.player side player }

/-- The arena after a step of a call. -/
def Arena.call (arena : Arena S R) (side : Side) (op : Op) (out : Outcome S R Side) : Arena S R :=
  { sem := Function.update arena.sem (side.target op) out.sem
    player := Function.update arena.player side { arena.player side with pc := .call op out.pc } }

/-- What `get_iters` returns: the next count, once the other process has asked
for it or has even taken it. -/
def released (rounds : List U32) (arena : Arena S R) (side : Side) : Option U32 :=
  let round := (arena.player side).rounds
  let other := arena.player side.other
  if round < other.rounds ∨ (other.rounds = round ∧ other.pc = .getIters) then rounds[round]?
  else none

/-- One step of a side: the next statement, or a step of the semaphore call it is in. -/
def step (rounds : List U32) (arena : Arena S R) : Side × Action → Option (Arena S R)
  | (side, .next) =>
      let player := arena.player side
      match player.pc with
      | .getIters =>
          (released rounds arena side).map fun iters =>
            arena.setPlayer side
              (enter { player with rounds := player.rounds + 1, left := iters.toNat })
      | .call .produce pc =>
          pc.result.map fun _ => arena.setPlayer side { player with pc := .call .consume .load }
      | .call .consume pc =>
          pc.result.map fun _ =>
            arena.setPlayer side
              (enter { player with left := player.left - 1, finished := player.finished + 1 })
  | (side, .sem now choice) =>
      match (arena.player side).pc with
      | .getIters => none
      | .call op pc =>
          ((pingCall op).step now side (arena.sem (side.target op)) pc choice).map
            (arena.call side op)

/-- Both processes are about to ask for their first count. -/
def initial (readings : Side → Fin S → Nat × Nat) : Arena S R where
  sem side := new 1 (readings side)
  player _ := ⟨.getIters, 0, 0, 0⟩

end Step

open Schtest.Transition

/-- All interleavings of the two processes, for any counts of the rounds. -/
def system (S R : Nat) (rounds : List U32) : System (Arena S R) (Side × Action) where
  init arena := ∃ readings, arena = initial readings
  step := step rounds

variable {S R : Nat} {rounds : List U32}

/-- The possible effects of a step. -/
inductive Effects (rounds : List U32) (arena : Arena S R) (side : Side) : Arena S R → Prop
  | depart {iters} : (arena.player side).pc = .getIters → released rounds arena side = some iters →
      Effects rounds arena side (arena.setPlayer side (enter { arena.player side with
        rounds := (arena.player side).rounds + 1, left := iters.toNat }))
  | produced {result} : (arena.player side).pc = .call .produce (.returned result) →
      Effects rounds arena side
        (arena.setPlayer side { arena.player side with pc := .call .consume .load })
  | consumed {result} : (arena.player side).pc = .call .consume (.returned result) →
      Effects rounds arena side (arena.setPlayer side (enter { arena.player side with
        left := (arena.player side).left - 1, finished := (arena.player side).finished + 1 }))
  | call {op pc now choice out} : (arena.player side).pc = .call op pc →
      (pingCall op).step now side (arena.sem (side.target op)) pc choice = some out →
      Effects rounds arena side (arena.call side op out)

theorem effects_of_step {arena next : Arena S R} {side : Side} {action : Action}
    (step : step rounds arena (side, action) = some next) : Effects rounds arena side next := by
  cases action with
  | next =>
      simp only [PingPong.step] at step
      split at step
      · rename_i atPc
        obtain ⟨iters, release, rfl⟩ := Option.map_eq_some_iff.mp step
        exact .depart atPc release
      · rename_i atPc
        obtain ⟨result, returned, rfl⟩ := Option.map_eq_some_iff.mp step
        rw [Pc.result_eq_some_iff.mp returned] at atPc
        exact .produced atPc
      · rename_i atPc
        obtain ⟨result, returned, rfl⟩ := Option.map_eq_some_iff.mp step
        rw [Pc.result_eq_some_iff.mp returned] at atPc
        exact .consumed atPc
  | sem now choice =>
      simp only [PingPong.step] at step
      split at step
      · contradiction
      · rename_i atPc
        obtain ⟨out, callStep, rfl⟩ := Option.map_eq_some_iff.mp step
        exact .call atPc callStep

end Schtest.PingPong
