import Schtest.Semaphore.Threads
import Mathlib.Data.List.TakeWhile

/-!
# Timers and the log

What a step of a call does to the wake timers, and how the log says which
resets a waiter may measure from: a sample of a waiter is honest when the
newest stamp its slot had seen was made after the waiter read its cookie.
-/

namespace Schtest.Semaphore

open Schtest.Clock Schtest.Transition

universe u

variable {S R : Nat} {ι : Type u} [DecidableEq ι]

/-! ## Effects on the timers -/

/-- The cookie a call holds. -/
def Pc.cookie? : Pc → Option Nat
  | .wait _ held | .asleep held | .elapsed held | .expired held _ => some held
  | _ => none

/-- Events that no statement about timers looks at. -/
def Event.untimed : Event → Bool
  | .committed | .futexWait _ | .awoke | .returned _ => true
  | _ => false

/-- Program counters between the two halves of a timer operation. -/
def Pc.midway : Pc → Bool
  | .expired _ _ | .sample _ | .stamp _ => true
  | _ => false

/-- The effects of a step on the timers. -/
inductive TimerEffect [NeZero S] (R now : Nat) (wake : SplitTimer S) :
    Pc → SplitTimer S → Pc → Option Event → Prop
  | advance : TimerEffect R now wake .reset wake.advance (.stamp wake.index) none
  | stamp (index : Nat) :
      TimerEffect R now wake (.stamp index) (wake.stamp index now) .notify (some (.stamped index))
  | readCookie (cur : U32) :
      TimerEffect R now wake (.cookie cur) wake (.wait cur wake.cookie)
        (some (.readCookie wake.cookie))
  | readSlot (cookie : Nat) :
      TimerEffect R now wake (.elapsed cookie) wake
        (.expired cookie (wake.slotElapsed cookie now))
        (some (.readSlot (wake.slotElapsed cookie now)))
  | check (cookie measured : Nat) :
      TimerEffect R now wake (.expired cookie measured) wake
        (if ¬ wake.expired cookie ∧ R ≠ 0 then .sample measured else .load) none
  | sample (measured : Nat) :
      TimerEffect R now wake (.sample measured) wake .load (some (.sampled measured))
  | keep {pc next : Pc} {event : Option Event} : pc.midway = false → next.midway = false →
      (∀ cookie, next.cookie? = some cookie → pc.cookie? = some cookie) →
      (∀ happened, event = some happened → happened.untimed = true) →
      TimerEffect R now wake pc wake next event

omit [DecidableEq ι] in
theorem Call.branch_untimed (call : Call) (max cur : U32) :
    (call.branch max cur).midway = false ∧ (call.branch max cur).cookie? = none := by
  unfold Call.branch
  split
  · exact ⟨rfl, rfl⟩
  · split <;> exact ⟨rfl, rfl⟩

/-- Inversion of `Call.step` with respect to the timers. -/
theorem Call.timerEffect_of_step [NeZero S] {call : Call} {now : Nat} {tid : ι}
    {sem : Semaphore S R ι} {pc : Pc} {choice : Choice ι} {out : Outcome S R ι}
    (step : call.step now tid sem pc choice = some out) :
    TimerEffect R now sem.wake pc out.sem.wake out.pc out.event := by
  unfold Call.step at step
  split at step
  case h_1 =>
    cases step
    obtain ⟨midway, cookie⟩ := call.branch_untimed sem.max sem.count
    exact .keep rfl midway (by simp [cookie]) (by simp)
  case h_2 cur => -- commit
    split at step
    · cases step
      by_cases flagged : hasWaiter cur = true
      · exact .keep rfl (by simp [flagged, Pc.midway]) (by simp [flagged, Pc.cookie?])
          (by simp [Event.untimed])
      · exact .keep rfl (by simp [flagged, Pc.midway]) (by simp [flagged, Pc.cookie?])
          (by simp [Event.untimed])
    · cases step
      exact .keep rfl rfl (by simp [Pc.cookie?]) (by simp)
  case h_4 cur => -- arm
    split at step
    · cases step
      exact .keep rfl rfl (by simp [Pc.cookie?]) (by simp)
    · cases step
      exact .keep rfl rfl (by simp [Pc.cookie?]) (by simp)
  case h_6 cur =>
    cases step
    exact .readCookie cur
  case h_7 cur cookie => -- FUTEX_WAIT
    split at step
    · cases step
      exact .keep rfl rfl (by simp [Pc.cookie?]) (by simp [Event.untimed])
    · cases step
      exact .keep rfl rfl (by simp [Pc.cookie?]) (by simp [Event.untimed])
  case h_8 =>
    cases step
    exact .keep rfl rfl (by simp [Pc.cookie?]) (by simp [Event.untimed])
  case h_9 cookie => -- woken
    split at step
    · contradiction
    · cases step
      rw [if_pos (NeZero.ne S)]
      exact .keep rfl rfl (by simp [Pc.cookie?]) (by simp [Event.untimed])
  case h_10 =>
    split at step
    · cases step
      exact .keep rfl rfl (by simp [Pc.cookie?]) (by simp [Event.untimed])
    · contradiction
  case h_11 =>
    split at step
    · cases step
      exact .keep rfl rfl (by simp [Pc.cookie?]) (by simp [Event.untimed])
    · contradiction
  case h_12 cookie => -- return without a wake
    split at step
    · cases step
      rw [if_pos (NeZero.ne S)]
      exact .keep rfl rfl (by simp [Pc.cookie?]) (by simp [Event.untimed])
    · contradiction
  case h_13 cookie =>
    rw [dif_neg (NeZero.ne S)] at step
    cases step
    exact .readSlot cookie
  case h_14 cookie measured =>
    cases step
    exact .check cookie measured
  case h_15 measured =>
    cases step
    exact .sample measured
  case h_16 =>
    rw [if_neg (NeZero.ne S)] at step
    cases step
    exact .advance
  case h_17 index =>
    rw [dif_neg (NeZero.ne S)] at step
    cases step
    exact .stamp index
  case h_18 =>
    split at step
    · cases step
      exact .keep rfl rfl (by simp [Pc.cookie?]) (by simp)
    · contradiction
  case h_19 => contradiction
  all_goals
    cases step
    exact .keep rfl rfl (by simp [Pc.cookie?]) (by simp)

namespace TimerEffect

variable [NeZero S] {now : Nat} {wake wakeNext : SplitTimer S} {pc next : Pc} {event : Option Event}

/-- Only the drawing of an index changes the index. -/
theorem index_cases (effect : TimerEffect R now wake pc wakeNext next event) :
    wakeNext.index = wake.index ∨
      (pc = .reset ∧ wakeNext = wake.advance ∧ next = .stamp wake.index ∧ event = none) := by
  cases effect with
  | advance => exact Or.inr ⟨rfl, rfl, rfl, rfl⟩
  | stamp index => exact Or.inl rfl
  | _ => exact Or.inl rfl

/-- Only a stamp changes a slot. -/
theorem timers_eq (effect : TimerEffect R now wake pc wakeNext next event)
    (quiet : ∀ index, event ≠ some (.stamped index)) : wakeNext.timers = wake.timers := by
  cases effect with
  | stamp index => exact absurd rfl (quiet index)
  | _ => rfl

theorem of_stamped (effect : TimerEffect R now wake pc wakeNext next event) {index : Nat}
    (stamped : event = some (.stamped index)) :
    pc = .stamp index ∧ wakeNext = wake.stamp index now := by
  cases effect with
  | stamp index =>
      cases stamped
      exact ⟨rfl, rfl⟩
  | keep _ _ _ untimed => exact absurd (untimed _ stamped) (by simp [Event.untimed])
  | _ => cases stamped

/-- A waker at its stamp stamps. -/
theorem stamped_of_stamp {index : Nat}
    (effect : TimerEffect R now wake (.stamp index) wakeNext next event) :
    event = some (.stamped index) := by
  cases effect with
  | stamp index => rfl
  | keep midway _ _ _ => contradiction

/-- A waker reaches its stamp by drawing the index. -/
theorem index_of_stamp {index : Nat}
    (effect : TimerEffect R now wake pc wakeNext (.stamp index) event) :
    pc = .reset ∧ index = wake.index ∧ wakeNext = wake.advance := by
  generalize nextEq : Pc.stamp index = next at effect
  cases effect with
  | advance =>
      cases nextEq
      exact ⟨rfl, rfl, rfl⟩
  | keep _ midway _ _ =>
      rw [← nextEq] at midway
      contradiction
  | check cookie measured => split at nextEq <;> contradiction
  | _ => contradiction

/-- A cookie is held because it has just been read, or since before. -/
theorem cookie_cases (effect : TimerEffect R now wake pc wakeNext next event) {cookie : Nat}
    (holds : next.cookie? = some cookie) :
    (event = some (.readCookie cookie) ∧ cookie = wake.index) ∨
      (pc.cookie? = some cookie ∧ ∀ other, event ≠ some (.readCookie other)) := by
  cases effect with
  | readCookie cur =>
      cases holds
      exact Or.inl ⟨rfl, rfl⟩
  | readSlot held =>
      cases holds
      exact Or.inr ⟨rfl, by simp⟩
  | check held measured => split at holds <;> contradiction
  | keep _ _ held untimed =>
      refine Or.inr ⟨held cookie holds, fun other read => ?_⟩
      exact absurd (untimed _ read) (by simp [Event.untimed])
  | _ => contradiction

theorem of_expired {cookie measured : Nat}
    (effect : TimerEffect R now wake pc wakeNext (.expired cookie measured) event) :
    pc = .elapsed cookie ∧ measured = wake.slotElapsed cookie now ∧
      event = some (.readSlot measured) ∧ wakeNext = wake := by
  generalize nextEq : Pc.expired cookie measured = next at effect
  cases effect with
  | readSlot held =>
      cases nextEq
      exact ⟨rfl, rfl, rfl, rfl⟩
  | check held value => split at nextEq <;> contradiction
  | keep _ midway _ _ =>
      rw [← nextEq] at midway
      contradiction
  | _ => contradiction

theorem of_sample {measured : Nat}
    (effect : TimerEffect R now wake pc wakeNext (.sample measured) event) :
    ∃ cookie, pc = .expired cookie measured ∧ wake.expired cookie = false ∧ event = none := by
  generalize nextEq : Pc.sample measured = next at effect
  cases effect with
  | check cookie value =>
      split at nextEq
      · rename_i passed
        cases nextEq
        exact ⟨cookie, rfl, Bool.eq_false_iff.mpr passed.1, rfl⟩
      · contradiction
  | keep _ midway _ _ =>
      rw [← nextEq] at midway
      contradiction
  | _ => contradiction

theorem of_sampled (effect : TimerEffect R now wake pc wakeNext next event) {measured : Nat}
    (sampled : event = some (.sampled measured)) : pc = .sample measured := by
  cases effect with
  | sample value =>
      cases sampled
      rfl
  | keep _ _ _ untimed => exact absurd (untimed _ sampled) (by simp [Event.untimed])
  | _ => cases sampled

end TimerEffect

/-! ## Honest samples -/

/-- The entry is a cookie read by this thread. -/
def Entry.isCookieOf (tid : ι) (entry : Entry ι) : Bool :=
  match entry.event with
  | .readCookie _ => decide (entry.thread = tid)
  | _ => false

/-- The part of the log that is newer than the thread's latest cookie read. -/
def sinceCookie (tid : ι) (log : List (Entry ι)) : List (Entry ι) :=
  log.takeWhile fun entry => !entry.isCookieOf tid

/-- The entry is the stamp of a reset. -/
def Entry.isStamp (entry : Entry ι) : Bool :=
  match entry.event with
  | .stamped _ => true
  | _ => false

/-- A duration that `tid` measured is honest at a point of the log: the thread
has read its slot since it last read its cookie, before that and still after
the cookie some reset was stamped, and the duration is the time between. -/
def Honest (tid : ι) (log : List (Entry ι)) (measured : Nat) : Prop :=
  ∃ newer read between stamp older,
    sinceCookie tid log = newer ++ read :: (between ++ stamp :: older) ∧
      (∀ entry ∈ newer, entry.thread ≠ tid) ∧
      read.thread = tid ∧ read.event = .readSlot measured ∧
      stamp.isStamp = true ∧ stamp.time ≤ read.time ∧ measured = read.time - stamp.time

theorem isCookieOf_of_ne {tid : ι} {entry : Entry ι} (other : entry.thread ≠ tid) :
    entry.isCookieOf tid = false := by
  unfold Entry.isCookieOf
  split
  · exact decide_eq_false other
  · rfl

theorem sinceCookie_cons {tid : ι} {entry : Entry ι} (passes : entry.isCookieOf tid = false)
    (log : List (Entry ι)) : sinceCookie tid (entry :: log) = entry :: sinceCookie tid log := by
  simp [sinceCookie, passes]

theorem sinceCookie_append (tid : ι) (log : List (Entry ι)) :
    ∃ older, log = sinceCookie tid log ++ older :=
  ⟨_, (List.takeWhile_append_dropWhile).symm⟩

/-- A step of another thread, or one that does not read the cookie, only adds
to the part of the log that is newer than the cookie. -/
theorem sinceCookie_record {tid actor : ι} {event : Option Event}
    (passes : tid ≠ actor ∨ ∀ cookie, event ≠ some (.readCookie cookie)) (index : Nat)
    (call : Call) (now : Nat) (log : List (Entry ι)) :
    sinceCookie tid (record actor index call now event log) =
      record actor index call now event (sinceCookie tid log) := by
  cases event with
  | none => rfl
  | some event =>
      rw [record_some, record_some, sinceCookie_cons]
      rcases passes with other | quiet
      · exact isCookieOf_of_ne (Ne.symm other)
      · cases event with
        | readCookie cookie => exact absurd rfl (quiet cookie)
        | _ => rfl

/-- What other threads log does not make a duration less honest. -/
theorem Honest.cons {tid : ι} {log : List (Entry ι)} {measured : Nat}
    (honest : Honest tid log measured) {entry : Entry ι} (other : entry.thread ≠ tid) :
    Honest tid (entry :: log) measured := by
  obtain ⟨newer, read, between, stamp, older, since, others, rest⟩ := honest
  refine ⟨entry :: newer, read, between, stamp, older, ?_, ?_, rest⟩
  · rw [sinceCookie_cons (isCookieOf_of_ne other), since, List.cons_append]
  · exact List.forall_mem_cons.mpr ⟨other, others⟩

theorem Honest.record {tid actor : ι} {log : List (Entry ι)} {measured : Nat}
    (honest : Honest tid log measured) (other : tid ≠ actor) (index : Nat) (call : Call)
    (now : Nat) (event : Option Event) :
    Honest tid (record actor index call now event log) measured := by
  cases event with
  | none => exact honest
  | some event => exact honest.cons (Ne.symm other)

/-- An honest duration needs a stamp that is newer than the cookie. -/
theorem Honest.exists_stamp {tid : ι} {log : List (Entry ι)} {measured : Nat}
    (honest : Honest tid log measured) : ∃ entry ∈ sinceCookie tid log, entry.isStamp = true := by
  obtain ⟨newer, read, between, stamp, older, since, _, _, _, isStamp, _⟩ := honest
  exact ⟨stamp, by rw [since]; simp, isStamp⟩

/-- Every sample in the log is honest at the point where it was taken. -/
def HonestSamples (log : List (Entry ι)) : Prop :=
  ∀ newer entry older measured, log = newer ++ entry :: older →
    entry.event = .sampled measured → Honest entry.thread older measured

theorem HonestSamples.cons {entry : Entry ι} {log : List (Entry ι)} (honest : HonestSamples log)
    (head : ∀ measured, entry.event = .sampled measured → Honest entry.thread log measured) :
    HonestSamples (entry :: log) := by
  intro newer sample older measured splitEq sampled
  cases newer with
  | nil =>
      cases splitEq
      exact head measured sampled
  | cons first newer =>
      rw [List.cons_append, List.cons.injEq] at splitEq
      exact honest newer sample older measured splitEq.2 sampled

/-! ## The newest stamp of a slot -/

/-- The entry stamps this slot. -/
def Entry.stampsSlot [NeZero S] (slot : Fin S) (entry : Entry ι) : Bool :=
  match entry.event with
  | .stamped index => decide (SplitTimer.slot index = slot)
  | _ => false

omit [DecidableEq ι] in
theorem Entry.isStamp_of_stampsSlot [NeZero S] {slot : Fin S} {entry : Entry ι}
    (stamps : entry.stampsSlot slot = true) : entry.isStamp = true := by
  unfold Entry.stampsSlot at stamps
  unfold Entry.isStamp
  split at stamps
  · rfl
  · contradiction

omit [DecidableEq ι] in
/-- A stamp in a leading part of the log makes the newest stamp of its slot
lie in that part. -/
theorem find_stamp_of_mem [NeZero S] {slot : Fin S} {leading : List (Entry ι)} {entry : Entry ι}
    (member : entry ∈ leading) (stamps : entry.stampsSlot slot = true) (older : List (Entry ι)) :
    ∃ newest between rest, (leading ++ older).find? (Entry.stampsSlot slot) = some newest ∧
      newest.stampsSlot slot = true ∧ leading = between ++ newest :: rest := by
  have found : (leading.find? (Entry.stampsSlot slot)).isSome = true := by
    rw [List.find?_isSome]
    exact ⟨entry, member, stamps⟩
  obtain ⟨newest, newestEq⟩ := Option.isSome_iff_exists.mp found
  obtain ⟨isStamp, between, rest, splitEq, _⟩ := List.find?_eq_some_iff_append.mp newestEq
  refine ⟨newest, between, rest, ?_, isStamp, splitEq⟩
  rw [List.find?_append, newestEq, Option.some_or]

end Schtest.Semaphore
