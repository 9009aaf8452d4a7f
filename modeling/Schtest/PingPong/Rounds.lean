import Schtest.PingPong.Linked
import Mathlib.Data.List.TakeDrop

/-!
# Neither deadlock nor residue

Between two rounds the processes have made the same iterations, so both
semaphores are empty.  Inside a round they never wait for each other.
-/

namespace Schtest.PingPong

open Schtest.Semaphore Schtest.Process Schtest.Transition

variable {S R : Nat} {rounds : List U32}

/-! ## The rounds -/

/-- Iterations of the first rounds. -/
def work (rounds : List U32) (round : Nat) : Nat :=
  ((rounds.take round).map BitVec.toNat).sum

theorem work_succ {round : Nat} {iters : U32} (here : rounds[round]? = some iters) :
    work rounds (round + 1) = work rounds round + iters.toNat := by
  simp [work, List.take_add_one, here]

theorem work_mono {earlier later : Nat} (le : earlier ≤ later) :
    work rounds earlier ≤ work rounds later := by
  obtain ⟨more, rfl⟩ := Nat.exists_eq_add_of_le le
  simp [work, List.take_add]

/-- What the loops have counted, and the barrier between the rounds. -/
structure Counted (rounds : List U32) (player : Side → Player) : Prop where
  loop : ∀ side, (player side).pc = .getIters ↔ (player side).left = 0
  total : ∀ side, (player side).finished + (player side).left = work rounds (player side).rounds
  bounded : ∀ side, (player side).rounds ≤ rounds.length
  /-- A process is a round ahead only of one that waits for its count. -/
  barrier : ∀ side, (player side).rounds ≤ (player side.other).rounds + 1 ∧
    ((player side).rounds = (player side.other).rounds + 1 →
      (player side.other).pc = .getIters)

theorem Counted.initial : Counted rounds fun _ => ⟨.getIters, 0, 0, 0⟩ := by
  constructor <;> simp [work]

/-- One process moves. -/
theorem Counted.setPlayer {player : Side → Player} {side : Side} {moved : Player}
    (counted : Counted rounds player) (loop : moved.pc = .getIters ↔ moved.left = 0)
    (total : moved.finished + moved.left = work rounds moved.rounds)
    (bounded : moved.rounds ≤ rounds.length)
    (ahead : moved.rounds ≤ (player side.other).rounds + 1 ∧
      (moved.rounds = (player side.other).rounds + 1 → (player side.other).pc = .getIters))
    (behind : (player side.other).rounds ≤ moved.rounds) :
    Counted rounds (Function.update player side moved) := by
  constructor
  case loop =>
    apply (Function.forall_update_iff player fun _ p => p.pc = .getIters ↔ p.left = 0).mpr
    exact ⟨loop, fun s _ => counted.loop s⟩
  case total =>
    apply (Function.forall_update_iff player
      fun _ p => p.finished + p.left = work rounds p.rounds).mpr
    exact ⟨total, fun s _ => counted.total s⟩
  case bounded =>
    apply (Function.forall_update_iff player fun _ p => p.rounds ≤ rounds.length).mpr
    exact ⟨bounded, fun s _ => counted.bounded s⟩
  case barrier =>
    intro s
    rcases Side.eq_or_eq_other s side with rfl | rfl
    · simpa using ahead
    · have level : (player side.other).rounds ≠ moved.rounds + 1 := by
        omega
      simpa [level] using Nat.le_succ_of_le behind

/-- Inside a round a process cannot be left behind. -/
theorem Counted.update {player : Side → Player} {side : Side} {moved : Player}
    (counted : Counted rounds player) (inside : (player side).pc ≠ .getIters)
    (same : moved.rounds = (player side).rounds) (loop : moved.pc = .getIters ↔ moved.left = 0)
    (total : moved.finished + moved.left = (player side).finished + (player side).left) :
    Counted rounds (Function.update player side moved) := by
  have barrier := counted.barrier side.other
  rw [Side.other_other] at barrier
  have behind : (player side.other).rounds ≤ (player side).rounds := by
    by_contra ahead
    exact inside (barrier.2 (le_antisymm barrier.1 (Nat.lt_of_not_le ahead)))
  apply counted.setPlayer loop
  · rw [total, same]
    exact counted.total side
  · rw [same]
    exact counted.bounded side
  · rw [same]
    exact counted.barrier side
  · rw [same]
    exact behind

/-- `get_iters` returns. -/
theorem Counted.depart {arena : Arena S R} {side : Side} {iters : U32}
    (counted : Counted rounds arena.player) (atPc : (arena.player side).pc = .getIters)
    (release : released rounds arena side = some iters) :
    Counted rounds (Function.update arena.player side (enter { arena.player side with
      rounds := (arena.player side).rounds + 1, left := iters.toNat })) := by
  obtain ⟨ready, count⟩ : ((arena.player side).rounds < (arena.player side.other).rounds ∨
      ((arena.player side.other).rounds = (arena.player side).rounds ∧
        (arena.player side.other).pc = .getIters)) ∧
      rounds[(arena.player side).rounds]? = some iters := by
    unfold released at release
    dsimp only at release
    split at release
    · exact ⟨‹_›, release⟩
    · contradiction
  have barrier := (counted.barrier side.other).1
  rw [Side.other_other] at barrier
  apply counted.setPlayer
  · by_cases empty : iters.toNat = 0
    · simp [enter, empty]
    · simp [enter, empty]
  · have idle := (counted.loop side).mp atPc
    have total := counted.total side
    simp only [enter, work_succ count]
    omega
  · exact Nat.succ_le_of_lt (List.getElem?_eq_some_iff.mp count).1
  · dsimp only [enter]
    constructor
    · omega
    · intro level
      rcases ready with behind | ⟨_, waits⟩
      · omega
      · exact waits
  · exact barrier

theorem Counted.effects {arena next : Arena S R} {side : Side}
    (counted : Counted rounds arena.player) (effects : Effects rounds arena side next) :
    Counted rounds next.player := by
  -- a process in a call has iterations left
  have inside {op : Op} {pc : Pc} (atPc : (arena.player side).pc = .call op pc) :
      (arena.player side).pc ≠ .getIters ∧ (arena.player side).left ≠ 0 := by
    have busy : (arena.player side).pc ≠ .getIters := by simp [atPc]
    exact ⟨busy, fun empty => busy ((counted.loop side).mpr empty)⟩
  cases effects with
  | depart atPc release => exact counted.depart atPc release
  | produced atPc =>
      obtain ⟨busy, some_⟩ := inside atPc
      exact counted.update busy rfl (by simp [some_]) rfl
  | consumed atPc =>
      obtain ⟨busy, some_⟩ := inside atPc
      apply counted.update busy
      · rfl
      · simp only [enter]
        split <;> simp_all
      · simp only [enter]
        omega
  | call atPc _ =>
      obtain ⟨busy, some_⟩ := inside atPc
      exact counted.update busy rfl (by simp [some_]) rfl

theorem counted_of_reachable {arena : Arena S R} (reachable : (system S R rounds).Reachable arena) :
    Counted rounds arena.player := by
  refine System.Reachable.invariant (fun arena => Counted rounds arena.player) ?_ ?_ reachable
  · rintro _ ⟨readings, rfl⟩
    exact Counted.initial
  · rintro arena ⟨side, action⟩ next _ step counted
    exact counted.effects (effects_of_step step)

/-! ## Neither deadlock nor residue -/

/-- A process waits for a count that is not released, or in a futex queue. -/
def Arena.Waits (rounds : List U32) (arena : Arena S R) (side : Side) : Prop :=
  ((arena.player side).pc = .getIters ∧ released rounds arena side = none) ∨
  ∃ op pc, (arena.player side).pc = .call op pc ∧ pc.stage = .asleep ∧
    side ∈ (arena.sem (side.target op)).queue

/-- Whoever does not wait can go on by itself. -/
theorem Linked.waits_or_enabled {arena : Arena S R} (linked : Linked arena) (rounds : List U32)
    (side : Side) :
    arena.Waits rounds side ∨
      ∃ action : Action, action.voluntary = true ∧
        (system S R rounds).Enabled arena (side, action) := by
  cases atPc : (arena.player side).pc with
  | getIters =>
      cases release : released rounds arena side with
      | none => exact Or.inl (Or.inl ⟨atPc, release⟩)
      | some iters =>
          right
          exact ⟨.next, rfl, by simp [System.Enabled, system, step, atPc, release]⟩
  | call op pc =>
      cases result : pc.result with
      | some value =>
          right
          refine ⟨.next, rfl, ?_⟩
          cases op <;> simp [System.Enabled, system, step, atPc, result]
      | none =>
          by_cases queued : pc.stage = .asleep ∧ side ∈ (arena.sem (side.target op)).queue
          · exact Or.inl (Or.inr ⟨op, pc, atPc, queued.1, queued.2⟩)
          · right
            have valid := linked.valid side
            rw [atPc] at valid
            obtain ⟨choice, voluntary, enabled⟩ :=
              (pingCall op).exists_step_of_timed 0 side (arena.sem (side.target op)) valid.timed
                result fun asleep inQueue => queued ⟨asleep, inQueue⟩
            refine ⟨.sem 0 choice, voluntary, ?_⟩
            simpa [System.Enabled, system, step, atPc] using enabled

theorem Side.user_target_other (side : Side) (op : Op) :
    (side.target op).user op.other = side.other := by
  cases op <;> simp [user, target, Op.other]

namespace Arena.Waits

variable {arena : Arena S R} {side : Side}

/-- A waiting process owes nobody a `FUTEX_WAKE`. -/
theorem stage_ne_waking (waits : arena.Waits rounds side) (op : Op) :
    (arena.player side).pc.stage op ≠ some .waking := by
  rcases waits with ⟨atPc, _⟩ | ⟨op', pc, atPc, asleep, _⟩
  · simp [atPc, PlayerPc.stage]
  · simp [atPc, PlayerPc.stage, asleep]

/-- A waiting process has taken a token for each finished iteration. -/
theorem takes_eq (waits : arena.Waits rounds side) :
    (arena.player side).takes = (arena.player side).finished := by
  rcases waits with ⟨atPc, _⟩ | ⟨op, pc, atPc, asleep, _⟩
  · simp [Player.takes, atPc]
  · cases op <;> simp [Player.takes, atPc, asleep, Stage.commits]

end Arena.Waits

/-- A process asleep in `produce` has been ahead of the other one, and a process
asleep in `consume` has taken all that the other one put. -/
theorem Linked.exchanges_of_asleep {arena : Arena S R} {side : Side} {op : Op} {pc : Pc}
    (linked : Linked arena) (atPc : (arena.player side).pc = .call op pc)
    (asleep : pc.stage = .asleep) (queued : side ∈ (arena.sem (side.target op)).queue)
    (other : arena.Waits rounds side.other) :
    match op with
    | .produce => (arena.player side).finished = (arena.player side.other).finished + 1
    | .consume => (arena.player side).finished = (arena.player side.other).puts := by
  have inQueue : (side.target op).user op ∈ (arena.sem (side.target op)).queue := by
    rwa [Side.user_target]
  have amount : amountOf (arena.sem (side.target op)).count = op.refusal := by
    rcases (linked.duplex (side.target op)).covered op inQueue with ⟨_, amount⟩ | waking
    · exact amount
    · rw [Arena.stages, Side.user_target_other] at waking
      exact absurd waking (other.stage_ne_waking _)
  obtain ⟨full, holds, balance⟩ := linked.tokens (side.target op)
  rw [amount] at holds
  cases op with
  | produce =>
      obtain rfl : full = true := by cases full <;> simp_all [Op.refusal, token]
      simpa [Side.target, Player.puts, atPc, asleep, Stage.commits, other.takes_eq] using balance
  | consume =>
      obtain rfl : full = false := by cases full <;> simp_all [Op.refusal, token]
      simpa [Side.target, Player.takes, atPc, asleep, Stage.commits] using balance.symm

/-- A process that waits for a count has made all iterations of the other one. -/
theorem Counted.work_le_of_unreleased {arena : Arena S R} {side : Side}
    (counted : Counted rounds arena.player) (atPc : (arena.player side).pc = .getIters)
    (unreleased : released rounds arena side = none) :
    (arena.player side.other).rounds ≤ (arena.player side).rounds ∧
      (arena.player side.other).finished + (arena.player side.other).left ≤
        (arena.player side).finished := by
  have notBehind : (arena.player side.other).rounds ≤ (arena.player side).rounds := by
    by_contra behind
    have inside := counted.bounded side.other
    simp only [released, Nat.not_le.mp behind, true_or, if_true,
      List.getElem?_eq_none_iff] at unreleased
    omega
  have total := counted.total side
  rw [(counted.loop side).mp atPc] at total
  rw [counted.total side.other]
  exact ⟨notBehind, (work_mono notBehind).trans total.ge⟩

/-- Where both processes wait, they wait for their next counts. -/
theorem getIters_of_waits {arena : Arena S R} (linked : Linked arena)
    (counted : Counted rounds arena.player) (waits : ∀ side, arena.Waits rounds side)
    (side : Side) : (arena.player side).pc = .getIters := by
  rcases waits side with ⟨atPc, _⟩ | ⟨op, pc, atPc, asleep, queued⟩
  · exact atPc
  · exfalso
    have here := linked.exchanges_of_asleep atPc asleep queued (waits side.other)
    have busy : (arena.player side).left ≠ 0 := by
      intro empty
      rw [(counted.loop side).mpr empty] at atPc
      contradiction
    rcases waits side.other with ⟨otherPc, unreleased⟩ | ⟨op', pc', otherPc, asleep', queued'⟩
    · have behind := (counted.work_le_of_unreleased otherPc unreleased).2
      rw [Side.other_other] at behind
      have puts : (arena.player side.other).puts = (arena.player side.other).finished := by
        simp [Player.puts, otherPc]
      cases op <;> (dsimp only at here; omega)
    · have there := linked.exchanges_of_asleep otherPc asleep' queued' (by
        rw [Side.other_other]
        exact waits side)
      rw [Side.other_other] at there
      cases op <;> cases op' <;>
        simp [Player.puts, atPc, otherPc, asleep, asleep', Stage.commits] at here there <;>
        omega

/-- Where both processes wait, all rounds are over. -/
theorem finished_of_waits {arena : Arena S R} (linked : Linked arena)
    (counted : Counted rounds arena.player) (waits : ∀ side, arena.Waits rounds side)
    (side : Side) :
    (arena.player side).pc = .getIters ∧ (arena.player side).rounds = rounds.length := by
  have unreleased (s : Side) : released rounds arena s = none := by
    rcases waits s with ⟨_, unreleased⟩ | ⟨op, pc, atPc, _⟩
    · exact unreleased
    · rw [getIters_of_waits linked counted waits s] at atPc
      contradiction
  have atPc := getIters_of_waits linked counted waits
  have le := (counted.work_le_of_unreleased (atPc side) (unreleased side)).1
  have ge := (counted.work_le_of_unreleased (atPc side.other) (unreleased side.other)).1
  rw [Side.other_other] at ge
  have exhausted := unreleased side
  simp only [released, le_antisymm le ge, atPc, and_self, or_true, if_true,
    List.getElem?_eq_none_iff] at exhausted
  exact ⟨atPc side, le_antisymm (counted.bounded side) exhausted⟩

/-- Between two rounds both semaphores are as they were created. -/
theorem Linked.clean {arena : Arena S R} (linked : Linked arena)
    (atPc : ∀ side, (arena.player side).pc = .getIters) (side : Side) :
    amountOf (arena.sem side).count = 0 ∧ hasWaiter (arena.sem side).count = false ∧
      (arena.sem side).queue = [] := by
  have stages (op : Op) : arena.stages side op = none := by
    rw [Arena.stages, atPc]
    rfl
  have balance (s : Side) : ∃ full, amountOf (arena.sem s).count = token full ∧
      (arena.player s).finished = (arena.player s.other).finished + full.toNat := by
    obtain ⟨full, holds, balance⟩ := linked.tokens s
    exact ⟨full, holds, by simpa [Player.puts, Player.takes, atPc] using balance⟩
  constructor
  · obtain ⟨full, holds, here⟩ := balance side
    obtain ⟨_, _, there⟩ := balance side.other
    rw [Side.other_other] at there
    have empty : full.toNat = 0 := by omega
    cases full with
    | true => contradiction
    | false => simpa [token] using holds
  · constructor
    · by_contra flag
      obtain ⟨op, waits⟩ := (linked.duplex side).flagged (Bool.eq_true_of_not_eq_false flag)
      simp [stages] at waits
    · by_contra some_
      obtain ⟨tid, queued⟩ := List.exists_mem_of_ne_nil _ some_
      obtain ⟨op, _, sleeps⟩ := (linked.duplex side).asleep tid queued
      simp [stages] at sleeps

/-- Before the end of the last round one of the processes can go on by itself,
and both semaphores are empty whenever both processes ask for a count. -/
theorem neither_deadlock_nor_residue {arena : Arena S R}
    (reachable : (system S R rounds).Reachable arena) :
    ((∃ side, (arena.player side).pc ≠ .getIters ∨ (arena.player side).rounds ≠ rounds.length) →
      ∃ (side : Side) (action : Action), action.voluntary = true ∧
        (system S R rounds).Enabled arena (side, action)) ∧
    ((∀ side, (arena.player side).pc = .getIters) →
      ∀ side, amountOf (arena.sem side).count = 0 ∧ hasWaiter (arena.sem side).count = false ∧
        (arena.sem side).queue = []) := by
  have linked := linked_of_reachable reachable
  have counted := counted_of_reachable reachable
  constructor
  · rintro ⟨side, unfinished⟩
    by_contra stuck
    have waits (s : Side) : arena.Waits rounds s := by
      rcases linked.waits_or_enabled rounds s with waits | enabled
      · exact waits
      · exact absurd ⟨s, enabled⟩ stuck
    obtain ⟨atPc, exhausted⟩ := finished_of_waits linked counted waits side
    exact unfinished.elim (fun elsewhere => elsewhere atPc) (fun early => early exhausted)
  · exact linked.clean

/-- A round of one iteration in which the first process sleeps in `consume` until
the second one wakes it. -/
def oneIteration : List (Side × Action) :=
  let calls (side : Side) (steps : Nat) := List.replicate steps (side, Action.sem 0 .run)
  [(.first, .next), (.second, .next)] ++ calls .first 2 ++ [(.first, .next)] ++ calls .first 4 ++
    calls .second 4 ++ [(.second, .sem 0 (.wake [])), (.second, .next)] ++ calls .second 2 ++
    [(.second, .next)] ++ calls .first 6 ++ [(.first, .next)]

theorem neither_deadlock_nor_residue_betweenRounds :
    ∃ arena : Arena 256 1024,
      (system 256 1024 [1, 1]).exec (initial fun _ _ => (0, 0)) oneIteration = some arena ∧
      ((arena.player .first).rounds = 1 ∧ ∀ side, (arena.player side).pc = .getIters) ∧
      (∃ (side : Side) (action : Action), action.voluntary = true ∧
        (system 256 1024 [1, 1]).Enabled arena (side, action)) ∧
      ∀ side, amountOf (arena.sem side).count = 0 ∧ hasWaiter (arena.sem side).count = false ∧
        (arena.sem side).queue = [] := by
  have run : (((system 256 1024 [1, 1]).exec (initial fun _ _ => (0, 0)) oneIteration).any
      fun arena => (arena.player .first).rounds == 1 &&
        ((arena.player .first).pc == .getIters && (arena.player .second).pc == .getIters)) =
      true := by decide
  have start : (system 256 1024 [1, 1]).init (initial fun _ _ => (0, 0)) := ⟨_, rfl⟩
  obtain ⟨arena, ends, here⟩ := (Option.any_eq_true _ _).mp run
  simp only [Bool.and_eq_true, beq_iff_eq] at here
  have outside (side : Side) : (arena.player side).pc = .getIters := by
    cases side with
    | first => exact here.2.1
    | second => exact here.2.2
  obtain ⟨progress, clean⟩ :=
    neither_deadlock_nor_residue ((System.Reachable.init start).of_exec ends)
  exact ⟨arena, ends, ⟨here.1, outside⟩, progress ⟨.first, Or.inr (by simp [here.1])⟩,
    clean outside⟩

end Schtest.PingPong
