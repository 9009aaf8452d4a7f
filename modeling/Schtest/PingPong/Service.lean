import Schtest.PingPong.Crossed

/-!
# The processes of `adaptive_priority`

The first thread of a process asks for a count and, as often, produces on a semaphore
and consumes from another.  The second one consumes from the former, spins, and produces
on the latter.
-/

namespace Schtest.PingPong.Service

open Schtest.Semaphore Schtest.Process Schtest.Transition

/-! ## The threads -/

/-- Where one of the two threads is. -/
inductive ThreadPc
  /-- The first thread is in `get_iters`. -/
  | getIters
  /-- In `produce(1, 1, None)` or `consume(1, 1, None)`. -/
  | call (op : Op) (pc : Pc)
  /-- The second thread spins, and possibly sleeps. -/
  | spin
  deriving DecidableEq, Repr

/-- A thread, with the iterations left in this round and the finished ones of all
rounds.  The work is what the counts add up to, or the number of spins. -/
structure Thread where
  pc : ThreadPc
  left : Nat
  finished : Nat
  work : Nat
  deriving DecidableEq, Repr

/-- The head of the `for` loop. -/
def enter (thread : Thread) : Thread :=
  { thread with pc := if thread.left = 0 then .getIters else .call .produce .load }

/-- The next statement. -/
def Thread.next (side : Side) (thread : Thread) : Option Thread :=
  match side, thread.pc with
  | .first, .call .produce (.returned _) => some { thread with pc := .call .consume .load }
  | .first, .call .consume (.returned _) =>
      some (enter { thread with left := thread.left - 1, finished := thread.finished + 1 })
  | .second, .call .consume (.returned _) => some { thread with pc := .spin }
  | .second, .spin => some { thread with pc := .call .produce .load, work := thread.work + 1 }
  | .second, .call .produce (.returned _) =>
      some { thread with pc := .call .consume .load, finished := thread.finished + 1 }
  | _, _ => none

/-- The two threads and their two semaphores. -/
structure Pair (S R : Nat) where
  sem : Side → Semaphore S R Side
  thread : Side → Thread

/-- The steps of a thread. -/
inductive Action
  | next
  /-- `get_iters` returns. -/
  | iters (count : U32)
  | sem (now : Nat) (choice : Choice Side)
  deriving DecidableEq, Repr

/-- A step without failures of the threads themselves. -/
def Action.voluntary : Action → Bool
  | .next => true
  | .iters _ => false
  | .sem _ choice => choice.voluntary

section Step

variable {S R : Nat}

/-- Replaces the thread of a side. -/
def Pair.setThread (pair : Pair S R) (side : Side) (thread : Thread) : Pair S R :=
  { pair with thread := Function.update pair.thread side thread }

/-- The pair after a step of a call. -/
def Pair.call (pair : Pair S R) (side : Side) (op : Op) (out : Outcome S R Side) : Pair S R where
  sem := Function.update pair.sem (side.target op) out.sem
  thread := Function.update pair.thread side { pair.thread side with pc := .call op out.pc }

/-- One step of the thread of a side. -/
def step (pair : Pair S R) : Side × Action → Option (Pair S R)
  | (side, .next) => ((pair.thread side).next side).map (pair.setThread side)
  | (.first, .iters count) =>
      match (pair.thread .first).pc with
      | .getIters =>
          some (pair.setThread .first (enter { pair.thread .first with
            left := count.toNat, work := (pair.thread .first).work + count.toNat }))
      | _ => none
  | (side, .sem now choice) =>
      match (pair.thread side).pc with
      | .call op pc =>
          ((pingCall op).step now side (pair.sem (side.target op)) pc choice).map
            (pair.call side op)
      | _ => none
  | _ => none

/-- The first thread asks for its first count, and the second one is about to consume. -/
def initial (readings : Side → Fin S → Nat × Nat) : Pair S R where
  sem side := new 1 (readings side)
  thread
    | .first => ⟨.getIters, 0, 0, 0⟩
    | .second => ⟨.call .consume .load, 0, 0, 0⟩

end Step

/-- All interleavings of the two threads, for any counts. -/
def system (S R : Nat) : System (Pair S R) (Side × Action) where
  init pair := ∃ readings, pair = initial readings
  step := step

/-! ## Their exchanges -/

/-- The thread as a trader of tokens. -/
def Thread.trader (side : Side) (thread : Thread) : Trader where
  busy :=
    match thread.pc with
    | .call op pc => some (op, pc)
    | _ => none
  completed op :=
    match side, op, thread.pc with
    | .first, .produce, .call .consume _ => thread.finished + 1
    | .second, .consume, .spin => thread.finished + 1
    | .second, .consume, .call .produce _ => thread.finished + 1
    | _, _, _ => thread.finished

/-- What the loops have counted. -/
structure Counted (thread : Side → Thread) : Prop where
  first : (thread .first).pc ≠ .spin
  second : (thread .second).pc ≠ .getIters
  loop : (thread .first).pc = .getIters ↔ (thread .first).left = 0
  total : (thread .first).finished + (thread .first).left = (thread .first).work
  spins : (thread .second).work = (thread .second).finished +
    match (thread .second).pc with
    | .call .produce _ => 1
    | _ => 0

variable {S R : Nat} {pair : Pair S R}

/-- The semaphores hold what the threads have exchanged. -/
def Linked (pair : Pair S R) : Prop :=
  Crossed pair.sem fun side => (pair.thread side).trader side

theorem trader_setThread (pair : Pair S R) (side : Side) (thread : Thread) :
    (fun s => ((pair.setThread side thread).thread s).trader s) =
      Function.update (fun s => (pair.thread s).trader s) side (thread.trader side) := by
  funext s
  by_cases here : s = side
  · subst here
    simp [Pair.setThread]
  · simp [Pair.setThread, here]

theorem Linked.setThread (linked : Linked pair) {side : Side} {moved : Thread}
    (returned : ∀ op pc, (pair.thread side).pc = .call op pc → ∃ result, pc = .returned result)
    (entering : ∀ op pc, moved.pc = .call op pc → pc = .load)
    (exchanges : ∀ op, (moved.trader side).exchanges op =
      ((pair.thread side).trader side).exchanges op) : Linked (pair.setThread side moved) := by
  have called {thread : Thread} {op : Op} {pc : Pc}
      (busy : (thread.trader side).busy = some (op, pc)) : thread.pc = .call op pc := by
    simp only [Thread.trader] at busy
    split at busy
    · rename_i atPc
      cases busy
      exact atPc
    · contradiction
  rw [Linked, trader_setThread]
  exact Crossed.between linked (fun op pc busy => returned op pc (called busy))
    (fun op pc busy => entering op pc (called busy)) exchanges

/-- A call that has returned was served. -/
theorem Linked.served (linked : Linked pair) {side : Side} {op : Op} {result : Bool}
    (atPc : (pair.thread side).pc = .call op (.returned result)) : result = true := by
  have playing := linked.valid side op (.returned result) (by simp [Thread.trader, atPc])
  by_contra failed
  exact playing.unfailed (by rw [Pc.stage, Bool.eq_false_iff.mpr failed])

theorem enter_pc (thread : Thread) :
    (thread.left = 0 ∧ (enter thread).pc = .getIters) ∨
      (thread.left ≠ 0 ∧ (enter thread).pc = .call .produce .load) := by
  by_cases empty : thread.left = 0
  · simp [enter, empty]
  · simp [enter, empty]

theorem enter_exchanges (thread : Thread) (op : Op) :
    ((enter thread).trader .first).exchanges op = thread.finished := by
  have finished : (enter thread).finished = thread.finished := rfl
  rcases enter_pc thread with ⟨_, atPc⟩ | ⟨_, atPc⟩
  · cases op <;> simp [Trader.exchanges, Thread.trader, atPc, finished]
  · cases op <;> simp [Trader.exchanges, Thread.trader, atPc, finished, Pc.stage, Stage.commits]

theorem enter_load {thread : Thread} {op : Op} {pc : Pc}
    (called : (enter thread).pc = .call op pc) : pc = .load := by
  rcases enter_pc thread with ⟨_, atPc⟩ | ⟨_, atPc⟩
  · rw [atPc] at called
    contradiction
  · rw [atPc] at called
    cases called
    rfl

theorem Linked.next (linked : Linked pair) {side : Side} {moved : Thread}
    (step : (pair.thread side).next side = some moved) : Linked (pair.setThread side moved) := by
  unfold Thread.next at step
  split at step
  case h_1 result atPc =>
    cases step
    obtain rfl := linked.served atPc
    refine linked.setThread (by simp [atPc]) (by simp) fun op => ?_
    cases op <;> simp [Trader.exchanges, Thread.trader, atPc, Pc.stage, Stage.commits]
  case h_2 result atPc =>
    cases step
    obtain rfl := linked.served atPc
    refine linked.setThread (by simp [atPc]) (fun op pc => enter_load) fun op => ?_
    rw [enter_exchanges]
    cases op <;> simp [Trader.exchanges, Thread.trader, atPc, Pc.stage, Stage.commits]
  case h_3 result atPc =>
    cases step
    obtain rfl := linked.served atPc
    refine linked.setThread (by simp [atPc]) (by simp) fun op => ?_
    cases op <;> simp [Trader.exchanges, Thread.trader, atPc, Pc.stage, Stage.commits]
  case h_4 atPc =>
    cases step
    refine linked.setThread (by simp [atPc]) (by simp) fun op => ?_
    cases op <;> simp [Trader.exchanges, Thread.trader, atPc, Pc.stage, Stage.commits]
  case h_5 result atPc =>
    cases step
    obtain rfl := linked.served atPc
    refine linked.setThread (by simp [atPc]) (by simp) fun op => ?_
    cases op <;> simp [Trader.exchanges, Thread.trader, atPc, Pc.stage, Stage.commits]
  case h_6 => contradiction

/-- `get_iters` returns. -/
theorem Linked.iters (linked : Linked pair) (atPc : (pair.thread .first).pc = .getIters)
    (left work : Nat) :
    Linked (pair.setThread .first
      (enter { pair.thread .first with left := left, work := work })) := by
  refine linked.setThread (by simp [atPc]) (fun op pc => enter_load) fun op => ?_
  rw [enter_exchanges]
  cases op <;> simp [Trader.exchanges, Thread.trader, atPc]

theorem Thread.trader_call {thread : Thread} {op : Op} {pc : Pc} (side : Side)
    (atPc : thread.pc = .call op pc) (pcNext : Pc) :
    ({ thread with pc := .call op pcNext } : Thread).trader side =
      (thread.trader side).call op pcNext := by
  have completed : ({ thread with pc := .call op pcNext } : Thread).trader side =
      ⟨some (op, pcNext), (thread.trader side).completed⟩ := by
    simp only [Thread.trader, atPc, Trader.mk.injEq, true_and]
    funext op'
    cases side <;> cases op <;> cases op' <;> rfl
  exact completed

/-- A step of a call. -/
theorem Linked.call (linked : Linked pair) {side : Side} {op : Op} {pc : Pc} {now : Nat}
    {choice : Choice Side} {out : Outcome S R Side} (atPc : (pair.thread side).pc = .call op pc)
    (step : (pingCall op).step now side (pair.sem (side.target op)) pc choice = some out) :
    Linked (pair.call side op out) := by
  have busy : ((pair.thread side).trader side).busy = some (op, pc) := by
    simp [Thread.trader, atPc]
  have called := Crossed.call linked busy step
  have traders : (fun s => ((pair.call side op out).thread s).trader s) =
      Function.update (fun s => (pair.thread s).trader s) side
        (((pair.thread side).trader side).call op out.pc) := by
    funext s
    by_cases here : s = side
    · subst here
      simp [Pair.call, Thread.trader_call s atPc]
    · simp [Pair.call, here]
  rw [Linked, traders]
  exact called

/-! ## Their counts -/

theorem Counted.initial : Counted (initial (fun _ _ => (0, 0)) : Pair S R).thread := by
  constructor <;> simp [Service.initial]

/-- The first thread moves. -/
theorem Counted.setFirst {thread : Side → Thread} (counted : Counted thread) {moved : Thread}
    (here : moved.pc ≠ .spin) (loop : moved.pc = .getIters ↔ moved.left = 0)
    (total : moved.finished + moved.left = moved.work) :
    Counted (Function.update thread .first moved) where
  first := by simpa using here
  second := by simpa using counted.second
  loop := by simpa using loop
  total := by simpa using total
  spins := by simpa using counted.spins

/-- The second thread moves. -/
theorem Counted.setSecond {thread : Side → Thread} (counted : Counted thread) {moved : Thread}
    (here : moved.pc ≠ .getIters)
    (spins : moved.work = moved.finished +
      match moved.pc with
      | .call .produce _ => 1
      | _ => 0) :
    Counted (Function.update thread .second moved) where
  first := by simpa using counted.first
  second := by simpa using here
  loop := by simpa using counted.loop
  total := by simpa using counted.total
  spins := by simpa using spins

theorem Counted.next {thread : Side → Thread} (counted : Counted thread) {side : Side}
    {moved : Thread} (step : (thread side).next side = some moved) :
    Counted (Function.update thread side moved) := by
  have total := counted.total
  have loop := counted.loop
  have spins := counted.spins
  unfold Thread.next at step
  split at step
  case h_1 result atPc =>
    cases step
    have busy : (thread .first).left ≠ 0 := fun empty => by simp [loop.mpr empty] at atPc
    exact counted.setFirst (by simp) (by simp [busy]) total
  case h_2 result atPc =>
    cases step
    have busy : (thread .first).left ≠ 0 := fun empty => by simp [loop.mpr empty] at atPc
    refine counted.setFirst ?_ ?_ ?_
    · simp only [enter]
      split <;> simp
    · simp only [enter]
      split <;> simp_all
    · simp only [enter]
      omega
  case h_3 result atPc =>
    cases step
    exact counted.setSecond (by simp) (by simpa [atPc] using spins)
  case h_4 atPc =>
    cases step
    exact counted.setSecond (by simp) (by simpa [atPc] using spins)
  case h_5 result atPc =>
    cases step
    exact counted.setSecond (by simp) (by simpa [atPc] using spins)
  case h_6 => contradiction

theorem Counted.iters {thread : Side → Thread} (counted : Counted thread)
    (atPc : (thread .first).pc = .getIters) (count : U32) :
    Counted (Function.update thread .first (enter { thread .first with
      left := count.toNat, work := (thread .first).work + count.toNat })) := by
  have idle := counted.loop.mp atPc
  have total := counted.total
  refine counted.setFirst ?_ ?_ ?_
  · simp only [enter]
    split <;> simp
  · simp only [enter]
    split <;> simp_all
  · simp only [enter]
    omega

/-- The step of a call moves neither loop. -/
theorem Counted.call {thread : Side → Thread} (counted : Counted thread) {side : Side} {op : Op}
    {pc : Pc} (atPc : (thread side).pc = .call op pc) (pcNext : Pc) :
    Counted (Function.update thread side { thread side with pc := .call op pcNext }) := by
  cases side with
  | first =>
      have busy : (thread .first).left ≠ 0 :=
        fun empty => by simp [counted.loop.mpr empty] at atPc
      exact counted.setFirst (by simp) (by simp [busy]) counted.total
  | second =>
      have spins := counted.spins
      rw [atPc] at spins
      exact counted.setSecond (by simp) (by cases op <;> exact spins)

/-- What holds in every state. -/
structure Sound (pair : Pair S R) : Prop where
  linked : Linked pair
  counted : Counted pair.thread

theorem sound_initial (readings : Side → Fin S → Nat × Nat) :
    Sound (initial readings : Pair S R) where
  linked := by
    refine Crossed.initial readings (fun side => ?_) fun side op pc busy => ?_
    · funext op
      cases side <;> cases op <;> rfl
    · cases side with
      | first => cases busy
      | second =>
          cases busy
          rfl
  counted := by
    constructor <;> simp [initial]

theorem Sound.step (sound : Sound pair) {action : Side × Action} {later : Pair S R}
    (step : Service.step pair action = some later) : Sound later := by
  unfold Service.step at step
  split at step
  case h_1 side =>
    obtain ⟨moved, next, rfl⟩ := Option.map_eq_some_iff.mp step
    exact ⟨sound.linked.next next, sound.counted.next next⟩
  case h_2 count =>
    split at step
    · rename_i atPc
      cases step
      exact ⟨sound.linked.iters atPc _ _, sound.counted.iters atPc count⟩
    · contradiction
  case h_3 side now choice =>
    split at step
    · rename_i atPc
      obtain ⟨out, callStep, rfl⟩ := Option.map_eq_some_iff.mp step
      exact ⟨sound.linked.call atPc callStep, sound.counted.call atPc out.pc⟩
    · contradiction
  case h_4 => contradiction

theorem sound_of_reachable (reachable : (system S R).Reachable pair) : Sound pair := by
  apply reachable.invariant
  case base =>
    rintro _ ⟨readings, rfl⟩
    exact sound_initial readings
  case preserve =>
    intro pair action later _ step sound
    exact sound.step step

/-! ## One spin for each iteration -/

/-- How far the first thread has come with its iteration. -/
theorem Thread.exchanges_first {thread : Thread} (here : thread.pc ≠ .spin) :
    ∃ put taken, taken ≤ put ∧ put ≤ 1 ∧ (thread.pc = .getIters → put = 0) ∧
      (thread.trader .first).exchanges .produce = thread.finished + put ∧
      (thread.trader .first).exchanges .consume = thread.finished + taken := by
  cases atPc : thread.pc with
  | getIters => exact ⟨0, 0, by simp [Trader.exchanges, Thread.trader, atPc]⟩
  | call op pc =>
      have small := pc.stage.commits_le_one
      cases op with
      | produce =>
          exact ⟨pc.stage.commits, 0, by simp [Trader.exchanges, Thread.trader, atPc, small]⟩
      | consume =>
          exact ⟨1, pc.stage.commits, by simp [Trader.exchanges, Thread.trader, atPc, small]⟩
  | spin => exact absurd atPc here

/-- How far the second thread has come. -/
theorem Counted.exchanges_second {thread : Side → Thread} (counted : Counted thread) :
    ∃ given spun taken, given ≤ spun ∧ spun ≤ taken ∧
      (thread .second).work = (thread .second).finished + spun ∧
      ((thread .second).trader .second).exchanges .produce = (thread .second).finished + given ∧
      ((thread .second).trader .second).exchanges .consume =
        (thread .second).finished + taken := by
  have spins := counted.spins
  cases atPc : (thread .second).pc with
  | getIters => exact absurd atPc counted.second
  | call op pc =>
      rw [atPc] at spins
      have small := pc.stage.commits_le_one
      cases op with
      | produce =>
          exact ⟨pc.stage.commits, 1, 1,
            by simp [Trader.exchanges, Thread.trader, atPc, small, spins]⟩
      | consume =>
          exact ⟨0, 0, pc.stage.commits, by simp [Trader.exchanges, Thread.trader, atPc, spins]⟩
  | spin =>
      rw [atPc] at spins
      exact ⟨0, 0, 1, by simp [Trader.exchanges, Thread.trader, atPc, spins]⟩

/-- The threads of a process serve each other. -/
structure Serves (pair : Pair S R) : Prop where
  /-- There is a spin for each iteration, which begins before the iteration ends. -/
  spins : (pair.thread .first).finished ≤ (pair.thread .second).work ∧
    (pair.thread .second).work ≤ (pair.thread .first).finished + 1
  /-- Where the first thread asks for a count, all that it was asked for is done, and
  both semaphores are empty. -/
  idle : (pair.thread .first).pc = .getIters →
    (pair.thread .first).finished = (pair.thread .first).work ∧
    (pair.thread .second).work = (pair.thread .first).work ∧
    ∀ side, amountOf (pair.sem side).count = 0
  /-- Otherwise one of the threads can go on by itself. -/
  goesOn : (pair.thread .first).pc ≠ .getIters → ∃ (side : Side) (action : Action),
    action.voluntary = true ∧ (system S R).Enabled pair (side, action)

/-- A thread goes on by itself, or sleeps. -/
theorem Sound.sleeps_or_enabled (sound : Sound pair) (side : Side)
    (busy : (pair.thread side).pc ≠ .getIters) :
    (∃ op, Crossed.Sleeps pair.sem (fun s => (pair.thread s).trader s) side op) ∨
      ∃ action : Action, action.voluntary = true ∧ (system S R).Enabled pair (side, action) := by
  cases atPc : (pair.thread side).pc with
  | getIters => exact absurd atPc busy
  | spin =>
      right
      cases side with
      | first => exact absurd atPc sound.counted.first
      | second =>
          exact ⟨.next, rfl, by simp [System.Enabled, system, Service.step, Thread.next, atPc]⟩
  | call op pc =>
      have called : ((pair.thread side).trader side).busy = some (op, pc) := by
        simp [Thread.trader, atPc]
      cases result : pc.result with
      | some value =>
          right
          refine ⟨.next, rfl, ?_⟩
          rw [Pc.result_eq_some_iff.mp result] at atPc
          cases side <;> cases op <;>
            simp [System.Enabled, system, Service.step, Thread.next, atPc]
      | none =>
          rcases Crossed.sleeps_or_enabled sound.linked called result with
            sleeps | ⟨choice, voluntary, enabled⟩
          · exact .inl ⟨op, sleeps⟩
          · right
            refine ⟨.sem 0 choice, voluntary, ?_⟩
            cases side <;> simpa [System.Enabled, system, Service.step, atPc] using enabled

/-- A thread that sleeps is not about to wake the other one. -/
theorem pc_of_sleeps {side : Side} {op : Op}
    (sleeps : Crossed.Sleeps pair.sem (fun s => (pair.thread s).trader s) side op) :
    (∃ pc, (pair.thread side).pc = .call op pc ∧ pc.stage = .asleep) ∧
      ∀ op', ((pair.thread side).trader side).stage op' ≠ some .waking := by
  obtain ⟨pc, called, asleep, _⟩ := sleeps
  constructor
  · simp only [Thread.trader] at called
    split at called
    · rename_i atPc
      cases called
      exact ⟨pc, atPc, asleep⟩
    · contradiction
  · intro op'
    by_cases same : op' = op
    · subst same
      rw [Trader.stage_of_busy called, asleep]
      simp
    · rw [Trader.stage_of_busy_ne called same]
      simp

/-- The threads do not both sleep. -/
theorem Linked.not_both_sleep (linked : Linked pair) {op op' : Op}
    (first : Crossed.Sleeps pair.sem (fun s => (pair.thread s).trader s) .first op)
    (second : Crossed.Sleeps pair.sem (fun s => (pair.thread s).trader s) .second op') : False := by
  obtain ⟨⟨pc, atPc, asleep⟩, awake⟩ := pc_of_sleeps first
  obtain ⟨⟨pc', atPc', asleep'⟩, awake'⟩ := pc_of_sleeps second
  have exchanged := Crossed.exchanges_of_sleeps linked first (awake' _)
  have exchanged' := Crossed.exchanges_of_sleeps linked second (awake _)
  obtain ⟨full, _, balance⟩ := linked.tokens .first
  obtain ⟨full', _, balance'⟩ := linked.tokens .second
  cases op <;> cases op' <;>
    simp [Side.other, Trader.exchanges, Thread.trader, atPc, atPc', asleep, asleep',
      Stage.commits] at exchanged exchanged' balance balance' <;> omega

theorem serves (pair : Pair S R) (reachable : (system S R).Reachable pair) : Serves pair := by
  have sound := sound_of_reachable reachable
  obtain ⟨put, taken, takenPut, putOne, idle, putEq, takenEq⟩ :=
    Thread.exchanges_first sound.counted.first
  obtain ⟨given, spun, took, givenSpun, spunTook, workEq, givenEq, tookEq⟩ :=
    sound.counted.exchanges_second
  obtain ⟨full, holds, balance⟩ := sound.linked.tokens .first
  obtain ⟨full', holds', balance'⟩ := sound.linked.tokens .second
  simp only [Side.other] at balance balance'
  constructor
  case spins => omega
  case idle =>
    intro atPc
    have unput := idle atPc
    have left := sound.counted.loop.mp atPc
    have total := sound.counted.total
    have empty : full.toNat = 0 := by omega
    have empty' : full'.toNat = 0 := by omega
    refine ⟨by omega, by omega, fun side => ?_⟩
    cases side with
    | first =>
        cases full with
        | true => contradiction
        | false => simpa [token] using holds
    | second =>
        cases full' with
        | true => contradiction
        | false => simpa [token] using holds'
  case goesOn =>
    intro busy
    rcases sound.sleeps_or_enabled .first busy with ⟨op, sleeps⟩ | ⟨action, goes⟩
    · rcases sound.sleeps_or_enabled .second sound.counted.second with
        ⟨op', sleeps'⟩ | ⟨action, goes⟩
      · exact (sound.linked.not_both_sleep sleeps sleeps').elim
      · exact ⟨.second, action, goes⟩
    · exact ⟨.first, action, goes⟩

/-- A round of one iteration, in which the first thread sleeps in `consume` until the
second one has spun. -/
def oneRequest : List (Side × Action) :=
  let calls (side : Side) (steps : Nat) := List.replicate steps (side, Action.sem 0 .run)
  [(.first, .iters 1)] ++ calls .first 2 ++ [(.first, .next)] ++ calls .first 4 ++
    calls .second 2 ++ [(.second, .next), (.second, .next)] ++ calls .second 4 ++
    [(.second, .sem 0 (.wake [])), (.second, .next)] ++ calls .first 6 ++ [(.first, .next)]

theorem serves_oneRequest :
    ∃ pair : Pair 2 1024, ((pair.thread .first).pc = .getIters ∧ (pair.thread .first).work = 1) ∧
      Serves pair := by
  have start : (system 2 1024).init (initial fun _ _ => (0, 0)) := ⟨_, rfl⟩
  obtain ⟨pair, reachable, here⟩ := System.exists_reachable_of_exec oneRequest
    (fun pair : Pair 2 1024 => decide
      ((pair.thread .first).pc = ThreadPc.getIters ∧ (pair.thread .first).work = 1))
    start (by decide)
  exact ⟨pair, of_decide_eq_true here, serves pair reachable⟩

end Schtest.PingPong.Service
