import Schtest.PingPong.Core
import Schtest.Process.Duplex

/-!
# The semaphores of `ping_pong` and their users

Each semaphore holds what its producer has put and its consumer has not taken,
and its queue is that of a semaphore with two users.  Both are kept by every
step of either process.
-/

namespace Schtest.PingPong

open Schtest.Semaphore Schtest.Process Schtest.Transition

variable {S R : Nat} {rounds : List U32}

/-- The stage of a process in its call of an operation. -/
def PlayerPc.stage : PlayerPc → Op → Option Stage
  | .getIters, _ => none
  | .call op pc, op' => if op' = op then some pc.stage else none

/-- A call in progress: the loaded words are justified by the branches, no
missing slot is read or stamped, and the call does not return `false`. -/
structure Playing (S : Nat) (op : Op) (pc : Pc) : Prop where
  valid : pc.Valid (pingCall op) 1
  timed : pc.Timed S
  unfailed : pc.stage ≠ .returned false

/-- The calls of a player are calls of the ping-pong. -/
def PlayerPc.Valid (S : Nat) : PlayerPc → Prop
  | .getIters => True
  | .call op pc => Playing S op pc

/-- The exchanges of `produce` so far. -/
def Player.puts (player : Player) : Nat :=
  player.finished +
    match player.pc with
    | .getIters => 0
    | .call .produce pc => pc.stage.commits
    | .call .consume _ => 1

/-- The exchanges of `consume` so far. -/
def Player.takes (player : Player) : Nat :=
  player.finished +
    match player.pc with
    | .call .consume pc => pc.stage.commits
    | _ => 0

/-- The stages of the users of a semaphore. -/
def Arena.stages (arena : Arena S R) (s : Side) (op : Op) : Option Stage :=
  (arena.player (s.user op)).pc.stage op

/-- Each semaphore holds what was put and not taken, and knows who sleeps on it. -/
structure Linked (arena : Arena S R) : Prop where
  capacity : ∀ s, (arena.sem s).max = 1
  valid : ∀ side, (arena.player side).pc.Valid S
  duplex : ∀ s, Duplex (arena.sem s) s.user (arena.stages s)
  tokens : ∀ s, ∃ full, amountOf (arena.sem s).count = token full ∧
    (arena.player s).puts = (arena.player s.other).takes + full.toNat

theorem linked_initial (readings : Side → Fin S → Nat × Nat) :
    Linked (initial readings : Arena S R) := by
  constructor
  case capacity =>
    intro s
    change (1 &&& ~~~WAITER : U32) = 1
    decide
  case valid => exact fun _ => trivial
  case duplex =>
    intro s
    refine .of_empty rfl fun flag => ?_
    change hasWaiter 0 = true at flag
    exact absurd flag (by decide)
  case tokens => exact fun _ => ⟨false, new_amount _ _, rfl⟩

/-- A process changes its statement between two calls. -/
theorem Linked.setPlayer {arena : Arena S R} {side : Side} {player : Player}
    (linked : Linked arena) (valid : player.pc.Valid S)
    (between : ∀ op stage, (arena.player side).pc.stage op = some stage →
      ∃ result, stage = .returned result)
    (puts : player.puts = (arena.player side).puts)
    (takes : player.takes = (arena.player side).takes) : Linked (arena.setPlayer side player) := by
  have same (s : Side) (count : Player → Nat) (counts : count player = count (arena.player side)) :
      count ((arena.setPlayer side player).player s) = count (arena.player s) := by
    by_cases here : s = side
    · subst here
      simpa [Arena.setPlayer] using counts
    · simp [Arena.setPlayer, here]
  have kept (s : Side) (op : Op) (stage : Stage) (active : ∀ result, stage ≠ .returned result)
      (before : arena.stages s op = some stage) :
      (arena.setPlayer side player).stages s op = some stage := by
    by_cases here : s.user op = side
    · obtain ⟨result, returned⟩ := between op stage (by rw [← here]; exact before)
      exact absurd returned (active result)
    · simpa [Arena.stages, Arena.setPlayer, here] using before
  constructor
  case capacity => exact linked.capacity
  case valid =>
    exact (Function.forall_update_iff arena.player fun _ p => p.pc.Valid S).mpr
      ⟨valid, fun s _ => linked.valid s⟩
  case duplex =>
    intro s
    exact (linked.duplex s).mono (fun op => kept s op _ (by simp)) (fun op => kept s op _ (by simp))
      (fun op => kept s op _ (by simp))
  case tokens =>
    intro s
    obtain ⟨full, amount, balance⟩ := linked.tokens s
    refine ⟨full, amount, ?_⟩
    rw [same s Player.puts puts, same s.other Player.takes takes]
    exact balance

/-- The head of the loop leaves the exchanges alone. -/
theorem enter_valid (player : Player) : (enter player).pc.Valid S := by
  unfold enter
  dsimp only
  split
  · trivial
  · exact ⟨trivial, trivial, by simp [Pc.stage]⟩

theorem enter_puts (player : Player) : (enter player).puts = player.finished := by
  by_cases empty : player.left = 0
  · simp [enter, Player.puts, empty]
  · simp [enter, Player.puts, empty, Pc.stage, Stage.commits]

theorem enter_takes (player : Player) : (enter player).takes = player.finished := by
  by_cases empty : player.left = 0
  · simp [enter, Player.takes, empty]
  · simp [enter, Player.takes, empty]

theorem pingCall_op (op : Op) : (pingCall op).op = op := by
  cases op <;> rfl

theorem pingCall_v (op : Op) : (pingCall op).v = 1 := by
  cases op <;> rfl

theorem pingCall_timeout (op : Op) : (pingCall op).timeout = none := by
  cases op <;> rfl

/-- The exchange of a token shows in the exchanges of the process that makes it. -/
theorem exchange {op : Op} {s : Side} {sem semNext : Semaphore S R Side} {pc next : Pc}
    {event : Option Event} {full : Bool} (capacity : sem.max = 1)
    (holds : amountOf sem.count = token full)
    (effect : Effect (pingCall op) (s.user op) sem pc semNext next event) :
    ∃ fullNext, amountOf semNext.count = token fullNext ∧
      match op with
      | .produce => next.stage.commits + full.toNat = pc.stage.commits + fullNext.toNat
      | .consume => next.stage.commits + fullNext.toNat = pc.stage.commits + full.toNat := by
  cases op with
  | produce =>
      rcases put_token rfl rfl capacity holds effect with ⟨rfl, before, after, put⟩ | ⟨same, kept⟩
      · exact ⟨true, put, by simp [before, after]⟩
      · exact ⟨full, kept, by rw [same]⟩
  | consume =>
      rcases take_token rfl rfl holds effect with ⟨rfl, before, after, taken⟩ | ⟨same, kept⟩
      · exact ⟨false, taken, by simp [before, after]⟩
      · exact ⟨full, kept, by rw [same]⟩

namespace Arena

variable (arena : Arena S R) (side : Side) (op : Op) (out : Outcome S R Side)

theorem call_sem_target : (arena.call side op out).sem (side.target op) = out.sem :=
  Function.update_self _ _ _

theorem call_sem_of_ne {s : Side} (elsewhere : s ≠ side.target op) :
    (arena.call side op out).sem s = arena.sem s :=
  Function.update_of_ne elsewhere _ _

theorem call_player_self : (arena.call side op out).player side =
    { arena.player side with pc := .call op out.pc } :=
  Function.update_self _ _ _

theorem call_player_of_ne {s : Side} (elsewhere : s ≠ side) :
    (arena.call side op out).player s = arena.player s :=
  Function.update_of_ne elsewhere _ _

theorem call_stages_target : (arena.call side op out).stages (side.target op) =
    Function.update (arena.stages (side.target op)) op (some out.pc.stage) := by
  funext op'
  by_cases same : op' = op
  · subst same
    rw [Function.update_self, stages, Side.user_target, call_player_self]
    simp [PlayerPc.stage]
  · have elsewhere : (side.target op).user op' ≠ side := by
      intro user
      exact same (Side.user_injective _ (user.trans (Side.user_target side op).symm))
    rw [Function.update_of_ne same, stages, call_player_of_ne _ _ _ _ elsewhere, stages]

theorem call_stages_of_ne {pc : Pc} (atPc : (arena.player side).pc = .call op pc) {s : Side}
    (elsewhere : s ≠ side.target op) : (arena.call side op out).stages s = arena.stages s := by
  funext op'
  by_cases here : s.user op' = side
  · have different : op' ≠ op := by
      rintro rfl
      exact elsewhere (Side.eq_target_of_user_eq here)
    rw [stages, stages, here, call_player_self, atPc]
    simp [PlayerPc.stage, different]
  · rw [stages, stages, call_player_of_ne _ _ _ _ here]

end Arena

section Call

variable {arena : Arena S R} {side : Side} {op : Op} {pc : Pc} {out : Outcome S R Side}

/-- The semaphore of the call keeps its users, and the other one is left alone. -/
theorem Linked.duplex_call (linked : Linked arena) (atPc : (arena.player side).pc = .call op pc)
    (effect : Effect (pingCall op) ((side.target op).user op) (arena.sem (side.target op)) pc
      out.sem out.pc out.event) (s : Side) :
    Duplex ((arena.call side op out).sem s) s.user ((arena.call side op out).stages s) := by
  by_cases here : s = side.target op
  · rw [here, Arena.call_sem_target, Arena.call_stages_target]
    have stage : arena.stages (side.target op) op = some pc.stage := by
      rw [Arena.stages, Side.user_target, atPc]
      simp [PlayerPc.stage]
    have token : amountOf (arena.sem (side.target op)).count = 0 ∨
        amountOf (arena.sem (side.target op)).count = 1 := by
      obtain ⟨full, holds, _⟩ := linked.tokens (side.target op)
      cases full <;> simp [holds, Process.token]
    exact (linked.duplex (side.target op)).step (Side.user_injective _) (pingCall_op op)
      (pingCall_v op) (pingCall_timeout op) (linked.capacity _) token stage effect
  · rw [Arena.call_sem_of_ne _ _ _ _ here, Arena.call_stages_of_ne _ _ _ _ atPc here]
    exact linked.duplex s

/-- A token that moves is counted by the process that moves it. -/
theorem Linked.tokens_call (linked : Linked arena) (atPc : (arena.player side).pc = .call op pc)
    (effect : Effect (pingCall op) ((side.target op).user op) (arena.sem (side.target op)) pc
      out.sem out.pc out.event) (s : Side) :
    ∃ full, amountOf ((arena.call side op out).sem s).count = token full ∧
      ((arena.call side op out).player s).puts =
        ((arena.call side op out).player s.other).takes + full.toNat := by
  obtain ⟨full, holds, balance⟩ := linked.tokens s
  by_cases here : s = side.target op
  · rw [here] at holds balance ⊢
    obtain ⟨fullNext, holdsNext, moved⟩ := exchange (linked.capacity _) holds effect
    refine ⟨fullNext, by rw [Arena.call_sem_target]; exact holdsNext, ?_⟩
    cases op with
    | produce =>
        simp [Side.target, Arena.call, Player.puts, atPc] at balance moved ⊢
        omega
    | consume =>
        simp [Side.target, Arena.call, Player.takes, atPc] at balance moved ⊢
        omega
  · rw [Arena.call_sem_of_ne _ _ _ _ here]
    refine ⟨full, holds, ?_⟩
    have other := Side.eq_or_eq_other s side
    cases op with
    | produce =>
        have back : s = side.other := other.resolve_left here
        subst back
        simp [Arena.call, Player.takes, atPc] at balance ⊢
        exact balance
    | consume =>
        have back : s = side := other.resolve_right here
        subst back
        simp [Arena.call, Player.puts, atPc] at balance ⊢
        exact balance

/-- A step of a call. -/
theorem Linked.call {now : Nat} {choice : Choice Side} (linked : Linked arena)
    (atPc : (arena.player side).pc = .call op pc)
    (callStep : (pingCall op).step now side (arena.sem (side.target op)) pc choice = some out) :
    Linked (arena.call side op out) := by
  have capacity := linked.capacity (side.target op)
  have playing : Playing S op pc := by
    have valid := linked.valid side
    rwa [atPc] at valid
  obtain ⟨effect, validNext⟩ := Call.effect_of_step (capacity ▸ playing.valid) callStep
  rw [capacity] at validNext
  have effectUser : Effect (pingCall op) ((side.target op).user op) (arena.sem (side.target op)) pc
      out.sem out.pc out.event := by
    rwa [Side.user_target]
  constructor
  case capacity =>
    exact (Function.forall_update_iff arena.sem fun _ sem => sem.max = 1).mpr
      ⟨effect.max_eq.trans capacity, fun s _ => linked.capacity s⟩
  case valid =>
    have playingNext : Playing S op out.pc :=
      ⟨validNext, Call.timed_of_step callStep, effect.not_expired (pingCall_timeout op)⟩
    exact (Function.forall_update_iff arena.player fun _ p => p.pc.Valid S).mpr
      ⟨playingNext, fun s _ => linked.valid s⟩
  case duplex => exact linked.duplex_call atPc effectUser
  case tokens => exact linked.tokens_call atPc effectUser

end Call

theorem Linked.effects {arena next : Arena S R} {side : Side} (linked : Linked arena)
    (effects : Effects rounds arena side next) : Linked next := by
  -- without a timeout no call has returned `false`
  have returned {op : Op} {result : Bool}
      (atPc : (arena.player side).pc = .call op (.returned result)) : result = true := by
    have valid := linked.valid side
    rw [atPc] at valid
    by_contra failed
    exact valid.unfailed (by rw [Pc.stage, Bool.eq_false_iff.mpr failed])
  have between {op : Op} {result : Bool}
      (atPc : (arena.player side).pc = .call op (.returned result)) (op' : Op) (stage : Stage)
      (here : (arena.player side).pc.stage op' = some stage) :
      ∃ result, stage = .returned result := by
    rw [atPc, PlayerPc.stage] at here
    split at here
    · exact ⟨result, (Option.some.inj here).symm⟩
    · contradiction
  cases effects with
  | depart atPc _ =>
      apply linked.setPlayer (enter_valid _)
      · intro op stage here
        rw [atPc] at here
        contradiction
      · rw [enter_puts, Player.puts, atPc]
        rfl
      · rw [enter_takes, Player.takes, atPc]
        rfl
  | produced atPc =>
      obtain rfl := returned atPc
      have fresh : (PlayerPc.call .consume .load).Valid S :=
        ⟨trivial, trivial, by simp [Pc.stage]⟩
      apply linked.setPlayer fresh (between atPc)
      · simp [Player.puts, atPc, Pc.stage, Stage.commits]
      · simp [Player.takes, atPc, Pc.stage, Stage.commits]
  | consumed atPc =>
      obtain rfl := returned atPc
      apply linked.setPlayer (enter_valid _) (between atPc)
      · rw [enter_puts]
        simp [Player.puts, atPc]
      · rw [enter_takes]
        simp [Player.takes, atPc, Pc.stage, Stage.commits]
  | call atPc callStep => exact linked.call atPc callStep

theorem linked_of_reachable {arena : Arena S R} (reachable : (system S R rounds).Reachable arena) :
    Linked arena := by
  refine System.Reachable.invariant Linked ?_ ?_ reachable
  · rintro _ ⟨readings, rfl⟩
    exact linked_initial readings
  · rintro arena ⟨side, action⟩ next _ step linked
    exact linked.effects (effects_of_step step)

end Schtest.PingPong
