import Schtest.Semaphore.Stamps
import Mathlib.Data.Fintype.Basic

/-!
# Wake latencies

A waiter measures its wake latency from the slot of its cookie.  The exchange,
the drawing of a timer index, the stamp and the `FUTEX_WAKE` of a waker are
separate steps, so a wake can reach a waiter that read its cookie after the
index was drawn.  Such a waiter reads a slot that has not been stamped for it.

A sample is honest whenever the reset that drew the waiter's cookie has been
stamped by the time the waiter reads the slot.
-/

namespace Schtest.Semaphore

open Schtest.Clock Schtest.Transition

universe u

variable {S R : Nat} {ι : Type u} [DecidableEq ι]

/-! ## The defect -/

/-- One consumer that makes two calls and one producer that makes one. -/
def producerConsumer : Fin 2 → List Call
  | 0 => [consume 1 1 none, consume 1 1 none]
  | 1 => [produce 1 1 none]

/-- The producer exchanges the flagged word and stamps its timer; before its
`FUTEX_WAKE` the consumer takes the token and goes to sleep in its next call. -/
def staleWakeRun : List (Fin 2 × Action (Fin 2)) :=
  let run := fun tid => (tid, (⟨1, .run⟩ : Action (Fin 2)))
  List.replicate 2 (run 0) ++ List.replicate 4 (run 1) ++
    List.replicate 2 (run 0) ++ List.replicate 3 (run 0) ++ List.replicate 4 (run 0) ++
    [(1, ⟨1, .wake []⟩)] ++ List.replicate 4 (run 0)

/-- The newest entry is a sample without a stamp since the waiter's cookie. -/
def endsInStaleSample (config : Threads ι (Shared S R ι) Thread) : Bool :=
  match config.shared.log with
  | ⟨tid, _, _, _, .sampled _⟩ :: older => !(sinceCookie tid older).any Entry.isStamp
  | _ => false

theorem not_honest_of_stale {config : Threads ι (Shared S R ι) Thread}
    (stale : endsInStaleSample config = true) : ¬ HonestSamples config.shared.log := by
  intro honest
  unfold endsInStaleSample at stale
  split at stale
  · rename_i tid index call time measured older logEq
    obtain ⟨entry, member, isStamp⟩ := (honest [] _ older measured logEq rfl).exists_stamp
    have stamped : (sinceCookie tid older).any Entry.isStamp = true :=
      List.any_eq_true.mpr ⟨entry, member, isStamp⟩
    rw [stamped] at stale
    contradiction
  · contradiction

/-- The cookie has expired, or the reset that drew its index is past its stamp. -/
def StampedFor (config : Threads ι (Shared S R ι) Thread) (cookie : Nat) : Prop :=
  config.shared.sem.wake.expired cookie = true ∨
    (cookie < config.shared.sem.wake.index ∧
      ∀ waker, (config.locals waker).pc ≠ .stamp cookie)

/-- The cookie of a waiter that is about to read its slot. -/
def Pc.reading? : Pc → Option Nat
  | .elapsed held => some held
  | _ => none

/-- A waiter, woken or not, reads its slot only when that slot is stamped for
its cookie; and the run is so short that neither the clock nor the index wraps
around. -/
structure ReadsStamped (config : Threads ι (Shared S R ι) Thread) (action : ι × Action ι) :
    Prop where
  clock : config.shared.clock + action.2.delay < U64_SIZE
  index : (config.locals action.1).pc = .reset → config.shared.sem.wake.index + 1 < U64_SIZE
  stamped : ∀ cookie ∈ (config.locals action.1).pc.reading?, StampedFor config cookie

instance [Fintype ι] (config : Threads ι (Shared S R ι) Thread) (cookie : Nat) :
    Decidable (StampedFor config cookie) :=
  inferInstanceAs (Decidable (_ ∨ _ ∧ _))

instance [Fintype ι] (config : Threads ι (Shared S R ι) Thread) (action : ι × Action ι) :
    Decidable (ReadsStamped config action) :=
  decidable_of_iff (_ ∧ _ ∧ _)
    ⟨fun all => ⟨all.1, all.2.1, all.2.2⟩, fun all => ⟨all.clock, all.index, all.stamped⟩⟩

/-- The timers, the log and the threads agree. -/
structure Timed [NeZero S] (config : Threads ι (Shared S R ι) Thread) : Prop where
  /-- Only drawn indices are stamped. -/
  stamped : ∀ entry ∈ config.shared.log, ∀ index, entry.event = .stamped index →
    index < config.shared.sem.wake.index
  stamping : ∀ tid index, (config.locals tid).pc = .stamp index →
    index < config.shared.sem.wake.index
  /-- A drawn index is stamped, or its waker is about to do it. -/
  drawn : ∀ index < config.shared.sem.wake.index,
    (∃ entry ∈ config.shared.log, entry.event = .stamped index) ∨
      ∃ tid, (config.locals tid).pc = .stamp index
  created : ∀ slot, (config.shared.sem.wake.timers slot).reference ≤ config.shared.clock
  /-- A slot holds the instant of its newest stamp. -/
  slots : ∀ slot entry, config.shared.log.find? (Entry.stampsSlot slot) = some entry →
    ∃ timer : Timer, config.shared.sem.wake.timers slot = timer.reset entry.time ∧
      timer.reference ≤ entry.time ∧ entry.time ≤ config.shared.clock
  /-- Stamps from the cookie's index on are newer than the cookie. -/
  fresh : ∀ tid cookie, (config.locals tid).pc.cookie? = some cookie →
    ∀ entry ∈ config.shared.log, ∀ index, entry.event = .stamped index → cookie ≤ index →
      entry ∈ sinceCookie tid config.shared.log
  measured : ∀ tid cookie measured, (config.locals tid).pc = .expired cookie measured →
    config.shared.sem.wake.expired cookie = true ∨ Honest tid config.shared.log measured
  sampling : ∀ tid measured, (config.locals tid).pc = .sample measured →
    Honest tid config.shared.log measured
  honest : HonestSamples config.shared.log

section Preservation

variable [NeZero S] {config : Threads ι (Shared S R ι) Thread} {tid : ι} {now : Nat}
  {wakeNext : SplitTimer S} {next : Pc} {event : Option Event}

omit [DecidableEq ι] in
/-- The index does not decrease, as long as it does not wrap around. -/
theorem index_le (effect : TimerEffect R now config.shared.sem.wake (config.locals tid).pc wakeNext
      next event)
    (room : (config.locals tid).pc = .reset → config.shared.sem.wake.index + 1 < U64_SIZE) :
    config.shared.sem.wake.index ≤ wakeNext.index := by
  rcases effect.index_cases with same | ⟨reset, rfl, _, _⟩
  · exact same.ge
  · rw [SplitTimer.advance_index_of_lt (room reset)]
    exact Nat.le_succ _

/-- Indices below the new one are stamped in the new log or about to be. -/
theorem Timed.drawn_next (timed : Timed config)
    (effect : TimerEffect R now config.shared.sem.wake (config.locals tid).pc wakeNext next event)
    (room : (config.locals tid).pc = .reset → config.shared.sem.wake.index + 1 < U64_SIZE)
    (number : Nat) (call : Call) {index : Nat} (below : index < wakeNext.index) :
    (∃ entry ∈ record tid number call now event config.shared.log,
        entry.event = .stamped index) ∨
      (next = .stamp index ∨ ∃ waker, waker ≠ tid ∧ (config.locals waker).pc = .stamp index) := by
  have old : index < config.shared.sem.wake.index → _ := timed.drawn index
  have pending : index < config.shared.sem.wake.index ∨ next = .stamp index := by
    rcases effect.index_cases with same | ⟨reset, rfl, stamping, _⟩
    · exact Or.inl (same ▸ below)
    · rw [SplitTimer.advance_index_of_lt (room reset)] at below
      rcases Nat.lt_succ_iff_lt_or_eq.mp below with earlier | rfl
      · exact Or.inl earlier
      · exact Or.inr stamping
  rcases pending with earlier | stamping
  · rcases old earlier with ⟨entry, member, stamped⟩ | ⟨waker, stamping⟩
    · exact Or.inl ⟨entry, mem_record.mpr (Or.inr member), stamped⟩
    · by_cases same : waker = tid
      · subst same
        rw [stamping] at effect
        exact Or.inl ⟨_, mem_record.mpr (Or.inl ⟨_, effect.stamped_of_stamp, rfl⟩), rfl⟩
      · exact Or.inr (Or.inr ⟨waker, same, stamping⟩)
  · exact Or.inr (Or.inl stamping)

/-- No slot is created by a step. -/
theorem Timed.created_next (timed : Timed config) (later : config.shared.clock ≤ now)
    (effect : TimerEffect R now config.shared.sem.wake (config.locals tid).pc wakeNext next event)
    (slot : Fin S) : (wakeNext.timers slot).reference ≤ now := by
  have before := (timed.created slot).trans later
  by_cases stamps : ∃ index, event = some (.stamped index)
  · obtain ⟨index, stampedEq⟩ := stamps
    obtain ⟨_, wakeEq⟩ := effect.of_stamped stampedEq
    simp only [wakeEq, SplitTimer.stamp]
    by_cases hit : slot = SplitTimer.slot index
    · subst hit
      simpa using before
    · simpa [hit] using before
  · simp only [effect.timers_eq fun index stampedEq => stamps ⟨index, stampedEq⟩]
    exact before

/-- A cookie is older than the stamps from its index on, also one that is read in the step. -/
theorem Timed.fresh_next (timed : Timed config)
    (effect : TimerEffect R now config.shared.sem.wake (config.locals tid).pc wakeNext next event)
    (number : Nat) (call : Call) {cookie : Nat} (holds : next.cookie? = some cookie)
    {entry : Entry ι} (member : entry ∈ record tid number call now event config.shared.log)
    {index : Nat} (eventEq : entry.event = .stamped index) (atLeast : cookie ≤ index) :
    entry ∈ sinceCookie tid (record tid number call now event config.shared.log) := by
  rcases effect.cookie_cases holds with ⟨rfl, rfl⟩ | ⟨before, quiet⟩
  · -- every stamp in the log has an index below the cookie just read
    rcases mem_record.mp member with ⟨happened, happenedEq, rfl⟩ | old
    · cases happenedEq
      contradiction
    · exact absurd (timed.stamped entry old index eventEq) (Nat.not_lt.mpr atLeast)
  · rw [sinceCookie_record (Or.inr quiet)]
    exact mem_record.mpr ((mem_record.mp member).imp_right fun old =>
      timed.fresh tid cookie before entry old index eventEq atLeast)

/-- Every slot holds the instant of its newest stamp, also after the step. -/
theorem Timed.slots_next (timed : Timed config) (later : config.shared.clock ≤ now)
    (effect : TimerEffect R now config.shared.sem.wake (config.locals tid).pc wakeNext next event)
    (number : Nat) (call : Call) {slot : Fin S} {entry : Entry ι}
    (found : (record tid number call now event config.shared.log).find?
      (Entry.stampsSlot slot) = some entry) :
    ∃ timer : Timer, wakeNext.timers slot = timer.reset entry.time ∧
      timer.reference ≤ entry.time ∧ entry.time ≤ now := by
  have old : ∀ {entry : Entry ι},
      config.shared.log.find? (Entry.stampsSlot slot) = some entry →
        ∃ timer : Timer, config.shared.sem.wake.timers slot = timer.reset entry.time ∧
          timer.reference ≤ entry.time ∧ entry.time ≤ now := by
    intro entry found
    obtain ⟨timer, timerEq, created, past⟩ := timed.slots slot entry found
    exact ⟨timer, timerEq, created, past.trans later⟩
  by_cases stamps : ∃ index, event = some (.stamped index)
  · obtain ⟨index, rfl⟩ := stamps
    obtain ⟨_, rfl⟩ := effect.of_stamped rfl
    rw [record_some, List.find?_cons] at found
    by_cases hit : SplitTimer.slot index = slot
    · subst hit
      simp only [Entry.stampsSlot, decide_true] at found
      cases found
      exact ⟨config.shared.sem.wake.timers (SplitTimer.slot index), by simp [SplitTimer.stamp],
        (timed.created _).trans later, le_refl _⟩
    · simp only [Entry.stampsSlot, hit, decide_false] at found
      rw [show (config.shared.sem.wake.stamp index now).timers slot =
          config.shared.sem.wake.timers slot by simp [SplitTimer.stamp, Ne.symm hit]]
      exact old found
  · have quiet : ∀ index, event ≠ some (.stamped index) :=
      fun index stamped => stamps ⟨index, stamped⟩
    rw [effect.timers_eq quiet]
    apply old
    cases event with
    | none => exact found
    | some event =>
        rw [record_some, List.find?_cons] at found
        cases event with
        | stamped index => exact absurd rfl (quiet index)
        | _ => exact found

/-- After its slot read the acting thread has measured honestly or its cookie
has expired. -/
theorem Timed.honest_of_readSlot (timed : Timed config) (later : config.shared.clock ≤ now)
    (small : now < U64_SIZE) {cookie : Nat} (woken : (config.locals tid).pc = .elapsed cookie)
    (stamped : StampedFor config cookie) (number : Nat) (call : Call) :
    config.shared.sem.wake.expired cookie = true ∨
      Honest tid (record tid number call now
        (some (.readSlot (config.shared.sem.wake.slotElapsed cookie now))) config.shared.log)
        (config.shared.sem.wake.slotElapsed cookie now) := by
  apply stamped.imp_right
  rintro ⟨drawn, past⟩
  -- the reset that drew the cookie's index is in the log, after the cookie
  obtain ⟨entry, member, stampedEq⟩ :=
    (timed.drawn cookie drawn).resolve_right fun ⟨waker, stamping⟩ => past waker stamping
  have since := timed.fresh tid cookie (by rw [woken]; rfl) entry member cookie stampedEq le_rfl
  have stamps : entry.stampsSlot (SplitTimer.slot cookie : Fin S) = true := by
    simp [Entry.stampsSlot, stampedEq]
  obtain ⟨older, logEq⟩ := sinceCookie_append tid config.shared.log
  obtain ⟨newest, between, rest, found, newestStamps, sinceEq⟩ :=
    find_stamp_of_mem since stamps older
  rw [← logEq] at found
  -- so the slot was last stamped at `newest`, which is also newer than the cookie
  obtain ⟨timer, timerEq, created, past⟩ := timed.slots _ newest found
  have measuredEq : config.shared.sem.wake.slotElapsed cookie now = now - newest.time := by
    rw [SplitTimer.slotElapsed, timerEq]
    exact Timer.elapsed_reset created (past.trans later) small
  refine ⟨[], ⟨tid, number, call, now, .readSlot _⟩, between, newest, rest, ?_, by simp, rfl, rfl,
    Entry.isStamp_of_stampsSlot newestStamps, past.trans later, measuredEq⟩
  rw [sinceCookie_record (Or.inr (by simp)), record_some, sinceEq, List.nil_append]

/-- One step of a run that reads stamped slots keeps the agreement. -/
theorem Timed.step (timed : Timed config) (later : config.shared.clock ≤ now)
    (small : now < U64_SIZE) {semNext : Semaphore S R ι} {calls : List Call} {completed : Nat}
    (effect : TimerEffect R now config.shared.sem.wake (config.locals tid).pc semNext.wake next
      event)
    (room : (config.locals tid).pc = .reset → config.shared.sem.wake.index + 1 < U64_SIZE)
    (stamped : ∀ cookie ∈ (config.locals tid).pc.reading?, StampedFor config cookie)
    (number : Nat) (call : Call) :
    Timed (⟨⟨now, semNext, record tid number call now event config.shared.log⟩,
      Function.update config.locals tid ⟨calls, next, completed⟩⟩ :
        Threads ι (Shared S R ι) Thread) := by
  have grows := index_le effect room
  -- what a thread other than `tid` knows is about the old state
  have others : ∀ j, j ≠ tid →
      (Function.update config.locals tid ⟨calls, next, completed⟩ j).pc = (config.locals j).pc := by
    intro j differs
    rw [Function.update_of_ne differs]
  have own : (Function.update config.locals tid ⟨calls, next, completed⟩ tid).pc = next := by
    rw [Function.update_self]
  constructor
  case stamped =>
    intro entry member index eventEq
    rcases mem_record.mp member with ⟨happened, happenedEq, rfl⟩ | old
    · obtain ⟨stamping, _⟩ := effect.of_stamped (happenedEq.trans (congrArg some eventEq))
      exact (timed.stamping tid index stamping).trans_le grows
    · exact (timed.stamped entry old index eventEq).trans_le grows
  case stamping =>
    intro j index stamping
    by_cases same : j = tid
    · subst same
      rw [own] at stamping
      subst stamping
      obtain ⟨reset, rfl, wakeEq⟩ := effect.index_of_stamp
      simp only [wakeEq]
      rw [SplitTimer.advance_index_of_lt (room reset)]
      exact Nat.lt_succ_self _
    · rw [others j same] at stamping
      exact (timed.stamping j index stamping).trans_le grows
  case drawn =>
    intro index below
    rcases timed.drawn_next effect room number call below with
      logged | stamping | ⟨waker, differs, stamping⟩
    · exact Or.inl logged
    · exact Or.inr ⟨tid, own.trans stamping⟩
    · exact Or.inr ⟨waker, (others waker differs).trans stamping⟩
  case created => exact timed.created_next later effect
  case slots =>
    exact fun slot entry found => timed.slots_next later effect number call found
  case fresh =>
    intro j cookie holds entry member index eventEq atLeast
    by_cases same : j = tid
    · subst same
      rw [own] at holds
      exact timed.fresh_next effect number call holds member eventEq atLeast
    · rw [others j same] at holds
      rw [sinceCookie_record (Or.inl same)]
      exact mem_record.mpr ((mem_record.mp member).imp_right fun old =>
        timed.fresh j cookie holds entry old index eventEq atLeast)
  case measured =>
    intro j cookie measured expired
    by_cases same : j = tid
    · subst same
      rw [own] at expired
      subst expired
      obtain ⟨woken, rfl, rfl, wakeEq⟩ := effect.of_expired
      simp only [wakeEq]
      exact timed.honest_of_readSlot later small woken
        (stamped cookie (by rw [woken]; rfl)) number call
    · rw [others j same] at expired
      exact (timed.measured j cookie measured expired).imp (SplitTimer.expired_mono grows)
        fun honest => honest.record same number call now event
  case sampling =>
    intro j measured sampling
    by_cases same : j = tid
    · subst same
      rw [own] at sampling
      subst sampling
      obtain ⟨cookie, expired, passed, rfl⟩ := effect.of_sample
      rcases timed.measured j cookie measured expired with stale | honest
      · rw [passed] at stale
        contradiction
      · exact honest
    · rw [others j same] at sampling
      exact (timed.sampling j measured sampling).record same number call now event
  case honest =>
    cases event with
    | none => exact timed.honest
    | some event =>
        apply timed.honest.cons
        rintro measured rfl
        exact timed.sampling tid measured (effect.of_sampled rfl)

end Preservation

/-- Every step of a thread, returning included, has an effect on the timers. -/
theorem Thread.timerEffect_of_step [NeZero S] {tid : ι} {shared sharedNext : Shared S R ι}
    {thread next : Thread} {action : Action ι}
    (step : thread.step tid shared action = some (sharedNext, next)) :
    ∃ call event, sharedNext.log =
        record tid thread.completed call (shared.clock + action.delay) event shared.log ∧
      sharedNext.clock = shared.clock + action.delay ∧
      TimerEffect R (shared.clock + action.delay) shared.sem.wake thread.pc sharedNext.sem.wake
        next.pc event := by
  obtain ⟨call, rest, _, cases⟩ := Thread.step_cases step
  rcases cases with ⟨result, returned, rfl, rfl⟩ | ⟨out, callStep, rfl, rfl⟩
  · refine ⟨call, _, rfl, rfl, ?_⟩
    rw [returned]
    exact .keep rfl rfl (by simp [Pc.cookie?]) (by simp [Event.untimed])
  · exact ⟨call, out.event, rfl, rfl, Call.timerEffect_of_step callStep⟩

theorem timed_of_reachable [NeZero S] {max : U32} {allowed : Call → Prop}
    {config : Threads ι (Shared S R ι) Thread}
    (reachable : (threadSystem S R ι max allowed).ReachableUnder ReadsStamped config) :
    Timed config := by
  refine System.ReachableUnder.invariant Timed ?_ ?_ reachable
  · rintro config ⟨⟨readings, created, semEq, logEq⟩, localInit⟩
    have index : config.shared.sem.wake.index = 0 := by
      rw [semEq]
      rfl
    have load : ∀ tid, (config.locals tid).pc = .load := fun tid => (localInit tid).2.1
    constructor
    case created =>
      intro slot
      rw [semEq]
      exact (created slot).1.trans (created slot).2
    case honest =>
      intro newer entry older measured splitEq
      simp [logEq] at splitEq
    all_goals simp [logEq, index, load, Pc.cookie?]
  · rintro config ⟨tid, action⟩ next _ readsStamped step timed
    obtain ⟨shared, localNext, threadStep, rfl⟩ := Program.system_step_eq_some_iff.mp step
    obtain ⟨call, event, logEq, clockEq, effect⟩ := Thread.timerEffect_of_step threadStep
    obtain ⟨clock, sem, log⟩ := shared
    obtain ⟨calls, pc, completed⟩ := localNext
    cases logEq
    cases clockEq
    exact timed.step (Nat.le_add_right _ _) readsStamped.clock effect readsStamped.index
      readsStamped.stamped _ call

/-- The consumer sleeps, is woken after the stamp and samples its latency. -/
def stampedWakeRun : List (Fin 2 × Action (Fin 2)) :=
  let run := fun tid => (tid, (⟨1, .run⟩ : Action (Fin 2)))
  List.replicate 4 (run 0) ++ List.replicate 4 (run 1) ++ [(1, ⟨1, .wake []⟩)] ++
    List.replicate 4 (run 0)

end Schtest.Semaphore
