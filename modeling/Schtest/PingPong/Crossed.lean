import Schtest.PingPong.Linked

/-!
# Two threads that exchange tokens

Each of two threads produces on a semaphore of its own and consumes from that of the
other, one token at a time and in any order.  What the semaphores hold is what was put
and not taken, whatever else the threads do between their calls.
-/

namespace Schtest.PingPong

open Schtest.Semaphore Schtest.Process

/-- What a thread has to do with the semaphores: the call that it is in, and how many
calls of each operation it has completed. -/
structure Trader where
  busy : Option (Op × Pc)
  completed : Op → Nat

namespace Trader

/-- The stage of the call of `op` that the trader is in. -/
def stage (trader : Trader) (op : Op) : Option Stage :=
  match trader.busy with
  | some (op', pc) => if op' = op then some pc.stage else none
  | none => none

/-- The exchanges of an operation so far. -/
def exchanges (trader : Trader) (op : Op) : Nat :=
  trader.completed op +
    match trader.busy with
    | some (op', pc) => if op' = op then pc.stage.commits else 0
    | none => 0

/-- Its call has come to another step. -/
def call (trader : Trader) (op : Op) (pc : Pc) : Trader :=
  { trader with busy := some (op, pc) }

variable {trader : Trader} {op op' : Op} {pc : Pc}

theorem stage_of_busy (busy : trader.busy = some (op, pc)) : trader.stage op = some pc.stage := by
  simp [stage, busy]

theorem stage_of_busy_ne (busy : trader.busy = some (op, pc)) (different : op' ≠ op) :
    trader.stage op' = none := by
  simp [stage, busy, Ne.symm different]

theorem exchanges_of_busy (busy : trader.busy = some (op, pc)) :
    trader.exchanges op = trader.completed op + pc.stage.commits := by
  simp [exchanges, busy]

theorem exchanges_of_busy_ne (busy : trader.busy = some (op, pc)) (different : op' ≠ op) :
    trader.exchanges op' = trader.completed op' := by
  simp [exchanges, busy, Ne.symm different]

end Trader

variable {S R : Nat}

/-- Each semaphore holds what was put and not taken, and knows who sleeps on it. -/
structure Crossed (sem : Side → Semaphore S R Side) (trader : Side → Trader) : Prop where
  capacity : ∀ s, (sem s).max = 1
  valid : ∀ side op pc, (trader side).busy = some (op, pc) → Playing S op pc
  duplex : ∀ s, Duplex (sem s) s.user fun op => (trader (s.user op)).stage op
  tokens : ∀ s, ∃ full, amountOf (sem s).count = token full ∧
    (trader s).exchanges .produce = (trader s.other).exchanges .consume + full.toNat

namespace Crossed

variable {sem : Side → Semaphore S R Side} {trader : Side → Trader} {side : Side} {op : Op}
  {pc : Pc}

/-- The first call of a thread, or none. -/
theorem initial (readings : Side → Fin S → Nat × Nat)
    (fresh : ∀ side, (trader side).completed = fun _ => 0)
    (entering : ∀ side op pc, (trader side).busy = some (op, pc) → pc = .load) :
    Crossed (fun side => (new 1 (readings side) : Semaphore S R Side)) trader := by
  have unexchanged (side : Side) (op : Op) : (trader side).exchanges op = 0 := by
    rw [Trader.exchanges, fresh]
    split
    · rename_i op' pc busy
      rw [entering side op' pc busy]
      simp [Pc.stage, Stage.commits]
    · rfl
  constructor
  case capacity =>
    intro s
    change (1 &&& ~~~WAITER : U32) = 1
    decide
  case valid =>
    intro side op pc busy
    rw [entering side op pc busy]
    exact ⟨trivial, trivial, by simp [Pc.stage]⟩
  case duplex =>
    intro s
    refine .of_empty rfl fun flag => ?_
    change hasWaiter 0 = true at flag
    exact absurd flag (by decide)
  case tokens =>
    intro s
    exact ⟨false, new_amount _ _, by simp [unexchanged]⟩

/-- Between two calls of a thread. -/
theorem between (crossed : Crossed sem trader) {moved : Trader}
    (returned : ∀ op pc, (trader side).busy = some (op, pc) → ∃ result, pc = .returned result)
    (entering : ∀ op pc, moved.busy = some (op, pc) → pc = .load)
    (exchanges : ∀ op, moved.exchanges op = (trader side).exchanges op) :
    Crossed sem (Function.update trader side moved) := by
  have same (s : Side) (op : Op) :
      (Function.update trader side moved s).exchanges op = (trader s).exchanges op := by
    by_cases here : s = side
    · subst here
      rw [Function.update_self, exchanges]
    · rw [Function.update_of_ne here]
  have kept (s : Side) (op : Op) (stage : Stage) (active : ∀ result, stage ≠ .returned result)
      (before : (trader (s.user op)).stage op = some stage) :
      (Function.update trader side moved (s.user op)).stage op = some stage := by
    by_cases here : s.user op = side
    · exfalso
      rw [here, Trader.stage] at before
      split at before
      · rename_i op' pc busy
        obtain ⟨result, rfl⟩ := returned op' pc busy
        split at before
        · exact active result (Option.some.inj before).symm
        · contradiction
      · contradiction
    · rwa [Function.update_of_ne here]
  constructor
  case capacity => exact crossed.capacity
  case valid =>
    intro s op pc busy
    by_cases here : s = side
    · subst here
      rw [Function.update_self] at busy
      rw [entering op pc busy]
      exact ⟨trivial, trivial, by simp [Pc.stage]⟩
    · rw [Function.update_of_ne here] at busy
      exact crossed.valid s op pc busy
  case duplex =>
    intro s
    exact (crossed.duplex s).mono (fun op => kept s op _ (by simp))
      (fun op => kept s op _ (by simp)) (fun op => kept s op _ (by simp))
  case tokens =>
    intro s
    rw [same, same]
    exact crossed.tokens s

/-- The semaphore of the call keeps its users, and the other one is left alone. -/
theorem duplex_call (crossed : Crossed sem trader) (busy : (trader side).busy = some (op, pc))
    {semNext : Semaphore S R Side} {next : Pc} {event : Option Event}
    (effect : Effect (pingCall op) ((side.target op).user op) (sem (side.target op)) pc semNext
      next event) (s : Side) :
    Duplex (Function.update sem (side.target op) semNext s) s.user fun op' =>
      (Function.update trader side ((trader side).call op next) (s.user op')).stage op' := by
  have called : ((trader side).call op next).busy = some (op, next) := rfl
  by_cases here : s = side.target op
  · subst here
    rw [Function.update_self]
    have stages : (fun op' => (Function.update trader side ((trader side).call op next)
        ((side.target op).user op')).stage op') =
        Function.update (fun op' => (trader ((side.target op).user op')).stage op') op
          (some next.stage) := by
      funext op'
      by_cases same : op' = op
      · subst same
        rw [Function.update_self, Side.user_target, Function.update_self,
          Trader.stage_of_busy called]
      · have elsewhere : (side.target op).user op' ≠ side := by
          intro user
          exact same (Side.user_injective _ (user.trans (Side.user_target side op).symm))
        rw [Function.update_of_ne same, Function.update_of_ne elsewhere]
    rw [stages]
    have stage : (trader ((side.target op).user op)).stage op = some pc.stage := by
      rw [Side.user_target, Trader.stage_of_busy busy]
    have token : amountOf (sem (side.target op)).count = 0 ∨
        amountOf (sem (side.target op)).count = 1 := by
      obtain ⟨full, holds, _⟩ := crossed.tokens (side.target op)
      cases full <;> simp [holds, Process.token]
    exact (crossed.duplex (side.target op)).step (Side.user_injective _) (pingCall_op op)
      (pingCall_v op) (pingCall_timeout op) (crossed.capacity _) token stage effect
  · rw [Function.update_of_ne here]
    have stages : (fun op' => (Function.update trader side ((trader side).call op next)
        (s.user op')).stage op') = fun op' => (trader (s.user op')).stage op' := by
      funext op'
      by_cases user : s.user op' = side
      · have different : op' ≠ op := by
          rintro rfl
          exact here (Side.eq_target_of_user_eq user)
        rw [user, Function.update_self, Trader.stage_of_busy_ne called different,
          Trader.stage_of_busy_ne busy different]
      · rw [Function.update_of_ne user]
    rw [stages]
    exact crossed.duplex s

/-- A token that moves is counted by the thread that moves it. -/
theorem tokens_call (crossed : Crossed sem trader) (busy : (trader side).busy = some (op, pc))
    {semNext : Semaphore S R Side} {next : Pc} {event : Option Event}
    (effect : Effect (pingCall op) ((side.target op).user op) (sem (side.target op)) pc semNext
      next event) (s : Side) :
    ∃ full, amountOf (Function.update sem (side.target op) semNext s).count = token full ∧
      (Function.update trader side ((trader side).call op next) s).exchanges .produce =
        (Function.update trader side ((trader side).call op next) s.other).exchanges .consume +
          full.toNat := by
  have called : ((trader side).call op next).busy = some (op, next) := rfl
  have kept (s : Side) (op' : Op) (elsewhere : s ≠ side ∨ op' ≠ op) :
      (Function.update trader side ((trader side).call op next) s).exchanges op' =
        (trader s).exchanges op' := by
    by_cases here : s = side
    · subst here
      have different := elsewhere.resolve_left (not_not.mpr rfl)
      rw [Function.update_self, Trader.exchanges_of_busy_ne called different,
        Trader.exchanges_of_busy_ne busy different]
      rfl
    · rw [Function.update_of_ne here]
  have moved : (Function.update trader side ((trader side).call op next) side).exchanges op =
      (trader side).completed op + next.stage.commits := by
    rw [Function.update_self, Trader.exchanges_of_busy called]
    rfl
  have before := Trader.exchanges_of_busy busy
  obtain ⟨full, holds, balance⟩ := crossed.tokens s
  by_cases here : s = side.target op
  · subst here
    obtain ⟨fullNext, holdsNext, exchanged⟩ := exchange (crossed.capacity _) holds effect
    refine ⟨fullNext, by rw [Function.update_self]; exact holdsNext, ?_⟩
    cases op with
    | produce =>
        simp only [Side.target] at *
        rw [moved, kept side.other .consume (.inr (by simp))]
        omega
    | consume =>
        simp only [Side.target, Side.other_other] at *
        rw [moved, kept side.other .produce (.inr (by simp))]
        omega
  · refine ⟨full, by rw [Function.update_of_ne here]; exact holds, ?_⟩
    rw [kept s .produce, kept s.other .consume]
    · exact balance
    · cases op with
      | produce => exact .inr (by simp)
      | consume =>
          left
          rintro rfl
          exact here (by simp [Side.target])
    · cases op with
      | produce => exact .inl here
      | consume => exact .inr (by simp)

/-- A step of a call. -/
theorem call (crossed : Crossed sem trader) (busy : (trader side).busy = some (op, pc))
    {now : Nat} {choice : Choice Side} {out : Outcome S R Side}
    (step : (pingCall op).step now side (sem (side.target op)) pc choice = some out) :
    Crossed (Function.update sem (side.target op) out.sem)
      (Function.update trader side ((trader side).call op out.pc)) := by
  have capacity := crossed.capacity (side.target op)
  have playing := crossed.valid side op pc busy
  obtain ⟨effect, validNext⟩ := Call.effect_of_step (capacity ▸ playing.valid) step
  rw [capacity] at validNext
  have effectUser : Effect (pingCall op) ((side.target op).user op) (sem (side.target op)) pc
      out.sem out.pc out.event := by
    rwa [Side.user_target]
  constructor
  case capacity =>
    exact (Function.forall_update_iff sem fun _ sem => sem.max = 1).mpr
      ⟨effect.max_eq.trans capacity, fun s _ => crossed.capacity s⟩
  case valid =>
    have playingNext : Playing S op out.pc :=
      ⟨validNext, Call.timed_of_step step, effect.not_expired (pingCall_timeout op)⟩
    refine (Function.forall_update_iff trader fun _ t => ∀ op' pc', t.busy = some (op', pc') →
      Playing S op' pc').mpr ⟨?_, fun s _ => crossed.valid s⟩
    rintro op' pc' called
    cases called
    exact playingNext
  case duplex => exact crossed.duplex_call busy effectUser
  case tokens => exact crossed.tokens_call busy effectUser

/-! ## Who waits -/

/-- A thread sleeps in its call. -/
def Sleeps (sem : Side → Semaphore S R Side) (trader : Side → Trader) (side : Side) (op : Op) :
    Prop :=
  ∃ pc, (trader side).busy = some (op, pc) ∧ pc.stage = .asleep ∧
    side ∈ (sem (side.target op)).queue

/-- A call that has not returned can go on by itself, or sleeps. -/
theorem sleeps_or_enabled (crossed : Crossed sem trader)
    (busy : (trader side).busy = some (op, pc)) (unreturned : pc.result = none) :
    Sleeps sem trader side op ∨ ∃ choice, choice.voluntary = true ∧
      ((pingCall op).step 0 side (sem (side.target op)) pc choice).isSome = true := by
  by_cases queued : pc.stage = .asleep ∧ side ∈ (sem (side.target op)).queue
  · exact .inl ⟨pc, busy, queued⟩
  · right
    exact (pingCall op).exists_step_of_timed 0 side (sem (side.target op))
      (crossed.valid side op pc busy).timed unreturned
      fun asleep inQueue => queued ⟨asleep, inQueue⟩

/-- What was exchanged where a thread sleeps, and the other one is not about to wake it. -/
theorem exchanges_of_sleeps (crossed : Crossed sem trader) (sleeps : Sleeps sem trader side op)
    (other : (trader side.other).stage op.other ≠ some .waking) :
    match op with
    | .produce => (trader side).exchanges .produce = (trader side.other).exchanges .consume + 1
    | .consume => (trader side.other).exchanges .produce = (trader side).exchanges .consume := by
  obtain ⟨pc, busy, asleep, queued⟩ := sleeps
  have inQueue : (side.target op).user op ∈ (sem (side.target op)).queue := by
    rwa [Side.user_target]
  have amount : amountOf (sem (side.target op)).count = op.refusal := by
    rcases (crossed.duplex (side.target op)).covered op inQueue with ⟨_, amount⟩ | waking
    · exact amount
    · have user : (side.target op).user op.other = side.other := by
        cases op <;> simp [Side.user, Side.target, Op.other]
      rw [user] at waking
      exact absurd waking other
  obtain ⟨full, holds, balance⟩ := crossed.tokens (side.target op)
  rw [amount] at holds
  cases op with
  | produce =>
      obtain rfl : full = true := by cases full <;> simp_all [Op.refusal, token]
      exact balance
  | consume =>
      obtain rfl : full = false := by cases full <;> simp_all [Op.refusal, token]
      simpa [Side.target] using balance

end Crossed

end Schtest.PingPong
