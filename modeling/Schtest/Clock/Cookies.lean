import Schtest.Clock.Timer
import Mathlib.Data.List.Induction

/-!
# Cookies

A session calls `reset`, `cookie` and `elapsed` one after the other.  Slot `j`
holds the latest reset whose number is `j` modulo `S`, and a cookie is the number
of the reset that follows it, so `elapsed` finds that reset until its slot is
used again.
-/

namespace Schtest.Clock.SplitTimer

/-! ## Calls -/

/-- The calls of a `SplitTimer`. -/
inductive Call where
  | reset
  | cookie
  | elapsed (cookie : Nat)
  deriving DecidableEq, Repr

/-- What they return. -/
inductive Answer where
  | reset
  | cookie (cookie : Nat)
  | elapsed (duration : Option Nat)
  deriving DecidableEq, Repr

/-- A call and the instant at which it reads the clock. -/
structure Timed where
  instant : Nat
  call : Call
  deriving DecidableEq, Repr

/-- The instants of the resets. -/
def resets (calls : List Timed) : List Nat :=
  (calls.filter fun timed => timed.call = .reset).map Timed.instant

@[simp]
theorem resets_nil : resets [] = [] :=
  rfl

@[simp]
theorem resets_append (first second : List Timed) :
    resets (first ++ second) = resets first ++ resets second := by
  simp [resets]

variable {S : Nat}

/-- One call, at its instant. -/
def perform (timer : SplitTimer S) (timed : Timed) : SplitTimer S × Answer :=
  match timed.call with
  | .reset => (timer.reset timed.instant, .reset)
  | .cookie => (timer, .cookie timer.cookie)
  | .elapsed cookie => (timer, .elapsed (timer.elapsed cookie timed.instant))

/-- The timer after some calls. -/
def after (timer : SplitTimer S) (calls : List Timed) : SplitTimer S :=
  calls.foldl (fun timer timed => (timer.perform timed).1) timer

theorem after_append_singleton (timer : SplitTimer S) (calls : List Timed) (timed : Timed) :
    timer.after (calls ++ [timed]) = ((timer.after calls).perform timed).1 := by
  simp [after]

/-! ## What the slots hold -/

/-- A timer whose start is a given instant. -/
def stampedAt (reference instant : Nat) : Timer :=
  ⟨nanosSince reference instant, reference⟩

/-- Some resets have been made; the slot of each of the last `S` holds it. -/
structure Stamped [NeZero S] (references : Fin S → Nat) (resets : List Nat)
    (timer : SplitTimer S) : Prop where
  index : timer.index = resets.length
  reference : ∀ slot, (timer.timers slot).reference = references slot
  latest : ∀ number instant, resets[number]? = some instant → resets.length ≤ number + S →
    timer.timers (slot number) = stampedAt (references (slot number)) instant

theorem stamped_new [NeZero S] (readings : Fin S → Nat × Nat) :
    Stamped (fun slot => (readings slot).1) [] (new readings) := by
  constructor
  case index => rfl
  case reference => exact fun _ => rfl
  case latest => simp

/-- Resets that share a slot are at least `S` apart. -/
theorem add_le_of_slot_eq [NeZero S] {first second : Nat} (earlier : first < second)
    (same : (slot first : Fin S) = slot second) : first + S ≤ second := by
  have remainders : first % S = second % S := congrArg Fin.val same
  have divides : S ∣ second - first := by
    apply Nat.dvd_of_mod_eq_zero
    exact Nat.sub_mod_eq_zero_of_mod_eq remainders.symm
  have apart := Nat.le_of_dvd (by omega) divides
  omega

/-- A reset takes the slot of a reset that is `S` older. -/
theorem Stamped.reset [NeZero S] {references : Fin S → Nat} {resets : List Nat}
    {timer : SplitTimer S} (stamped : Stamped references resets timer) (instant : Nat)
    (small : resets.length + 1 < U64_SIZE) :
    Stamped references (resets ++ [instant]) (timer.reset instant) := by
  rw [SplitTimer.reset, dif_neg (NeZero.ne S), stamped.index]
  constructor
  case index =>
    rw [stamp_index, advance_index_of_lt (by rw [stamped.index]; exact small), stamped.index,
      List.length_append, List.length_singleton]
  case reference =>
    intro other
    by_cases same : other = slot resets.length
    · simp [stamp, same, stamped.reference]
    · simp [stamp, same, stamped.reference]
  case latest =>
    intro number found present recent
    rw [List.length_append, List.length_singleton] at recent
    by_cases old : number < resets.length
    · rw [List.getElem?_append_left old] at present
      have otherSlot : (slot number : Fin S) ≠ slot resets.length := by
        intro same
        have apart := add_le_of_slot_eq old same
        omega
      simp only [stamp, advance_timers, Function.update_of_ne otherSlot]
      exact stamped.latest number found present (by omega)
    · have bound : number < (resets ++ [instant]).length :=
        (List.getElem?_eq_some_iff.mp present).1
      have newest : number = resets.length := by
        rw [List.length_append, List.length_singleton] at bound
        omega
      subst newest
      rw [List.getElem?_concat_length, Option.some.injEq] at present
      simp [stamp, stampedAt, Timer.reset, stamped.reference, present]

/-- The slots after any calls. -/
theorem stamped_after [NeZero S] (readings : Fin S → Nat × Nat) (calls : List Timed)
    (small : (resets calls).length < U64_SIZE) :
    Stamped (fun slot => (readings slot).1) (resets calls) ((new readings).after calls) := by
  induction calls using List.reverseRecOn with
  | nil => exact stamped_new readings
  | append_singleton calls timed inductionHypothesis =>
      rw [resets_append, List.length_append] at small
      have stamped := inductionHypothesis (by omega)
      rw [after_append_singleton, resets_append]
      obtain ⟨instant, call⟩ := timed
      cases call with
      | reset => exact stamped.reset instant (by simpa [resets] using small)
      | cookie => simpa [resets, perform] using stamped
      | elapsed cookie => simpa [resets, perform] using stamped

/-! ## What `elapsed` finds -/

/-- A slot measures from the reset it holds. -/
theorem elapsed_stampedAt {reference instant now : Nat} (created : reference ≤ instant)
    (ordered : instant ≤ now) (small : now < reference + U64_SIZE) :
    (stampedAt reference instant).elapsed now = now - instant := by
  have nowSmall : nanosSince reference now = now - reference := Nat.mod_eq_of_lt (by omega)
  have instantSmall : nanosSince reference instant = instant - reference :=
    Nat.mod_eq_of_lt (by omega)
  simp only [Timer.elapsed, stampedAt, nowSmall, instantSmall]
  split <;> omega

/-- The cookie is too old once its slot may have been used again. -/
theorem Stamped.elapsed_of_le [NeZero S] {references : Fin S → Nat} {resets : List Nat}
    {timer : SplitTimer S} (stamped : Stamped references resets timer) {cookie : Nat}
    (old : (cookie + S) % U64_SIZE ≤ resets.length) (now : Nat) :
    timer.elapsed cookie now = none := by
  rw [SplitTimer.elapsed, dif_neg (NeZero.ne S)]
  simp [expired, stamped.index, old]

/-- Before that, its slot holds the reset after the cookie. -/
theorem Stamped.elapsed_of_lt [NeZero S] {references : Fin S → Nat} {resets : List Nat}
    {timer : SplitTimer S} (stamped : Stamped references resets timer) {cookie instant : Nat}
    (present : resets[cookie]? = some instant) (fits : cookie + S < U64_SIZE)
    (valid : resets.length < cookie + S) (now : Nat) :
    timer.elapsed cookie now =
      some ((stampedAt (references (slot cookie)) instant).elapsed now) := by
  have latest := stamped.latest cookie instant present (Nat.le_of_lt valid)
  have notExpired : ¬ (cookie + S) % U64_SIZE ≤ resets.length := by
    rw [Nat.mod_eq_of_lt fits]
    omega
  rw [SplitTimer.elapsed, dif_neg (NeZero.ne S)]
  simp [expired, stamped.index, notExpired, slotElapsed, latest]

/-! ## Sessions -/

/-- The calls to a new timer, on a clock that does not go back. -/
structure Session (S : Nat) where
  readings : Fin S → Nat × Nat
  calls : List Timed
  ordered : (calls.map Timed.instant).Pairwise (· ≤ ·)
  created : ∀ slot, (readings slot).1 ≤ (readings slot).2 ∧
    ∀ timed ∈ calls, (readings slot).2 ≤ timed.instant

namespace Session

/-- The timer before a call. -/
def timer (session : Session S) (position : Nat) : SplitTimer S :=
  (new session.readings).after (session.calls.take position)

/-- What the call at this position has returned. -/
def answer (session : Session S) (position : Nat) : Option Answer :=
  session.calls[position]?.map fun timed => ((session.timer position).perform timed).2

/-- The instants of the resets between two calls. -/
def resetsBetween (session : Session S) (first second : Nat) : List Nat :=
  resets ((session.calls.take second).drop first)

/-- The index of the timer does not wrap. -/
def Indexed (session : Session S) : Prop :=
  (resets session.calls).length < U64_SIZE

/-- An instant is within the `u64` nanoseconds of every slot. -/
def Clocked (session : Session S) (now : Nat) : Prop :=
  ∀ slot, now < (session.readings slot).1 + U64_SIZE

theorem resets_take (session : Session S) {first second : Nat} (before : first ≤ second) :
    resets (session.calls.take second) =
      resets (session.calls.take first) ++ session.resetsBetween first second := by
  have split : session.calls.take second =
      session.calls.take first ++ (session.calls.take second).drop first := by
    conv_lhs => rw [← List.take_append_drop first (session.calls.take second)]
    rw [List.take_take, Nat.min_eq_left before]
  conv_lhs => rw [split]
  rw [resets_append, resetsBetween]

theorem length_resets_take_le (session : Session S) (position : Nat) :
    (resets (session.calls.take position)).length ≤ (resets session.calls).length := by
  conv_rhs => rw [← List.take_append_drop position session.calls]
  rw [resets_append, List.length_append]
  exact Nat.le_add_right _ _

theorem stamped_timer [NeZero S] (session : Session S) (indexed : session.Indexed)
    (position : Nat) :
    Stamped (fun slot => (session.readings slot).1) (resets (session.calls.take position))
      (session.timer position) :=
  stamped_after _ _ (Nat.lt_of_le_of_lt (session.length_resets_take_le position) indexed)

/-- A reset before a call was made at an instant that is not later. -/
theorem instant_le (session : Session S) {position : Nat} {timed : Timed} {instant : Nat}
    (call : session.calls[position]? = some timed)
    (reset : instant ∈ resets (session.calls.take position)) : instant ≤ timed.instant := by
  obtain ⟨earlier, member, rfl⟩ := List.mem_map.mp reset
  have inside := (List.mem_filter.mp member).1
  obtain ⟨number, bound, rfl⟩ := List.getElem_of_mem inside
  have ordered := List.pairwise_iff_getElem.mp session.ordered
  obtain ⟨positionBound, rfl⟩ := List.getElem?_eq_some_iff.mp call
  rw [List.length_take] at bound
  have result := ordered number position (by simp; omega) (by simp; omega) (by omega)
  simpa using result

/-- A cookie is the number of resets so far. -/
theorem cookie_eq [NeZero S] (session : Session S) (indexed : session.Indexed)
    {position cookie : Nat} (asked : session.answer position = some (.cookie cookie)) :
    cookie = (resets (session.calls.take position)).length := by
  obtain ⟨timed, _, performed⟩ := Option.map_eq_some_iff.mp asked
  obtain ⟨instant, call⟩ := timed
  cases call with
  | reset => simp [perform] at performed
  | elapsed other => simp [perform] at performed
  | cookie =>
      simp only [perform, Answer.cookie.injEq] at performed
      rw [← performed]
      exact (session.stamped_timer indexed position).index

/-- The slots are older than the resets. -/
theorem created_le (session : Session S) (slot : Fin S) {position instant : Nat}
    (reset : instant ∈ resets (session.calls.take position)) :
    (session.readings slot).1 ≤ instant := by
  obtain ⟨earlier, member, rfl⟩ := List.mem_map.mp reset
  have created := session.created slot
  have inside := List.mem_of_mem_take (List.mem_filter.mp member).1
  exact Nat.le_trans created.1 (created.2 earlier inside)

/-- While its slot is not used again, a cookie measures from the reset after it. -/
theorem elapsed_of_recent [NeZero S] (session : Session S) (indexed : session.Indexed)
    {reading cookie instant now : Nat}
    (call : session.calls[reading]? = some ⟨now, .elapsed cookie⟩)
    (present : (resets (session.calls.take reading))[cookie]? = some instant)
    (fits : cookie + S < U64_SIZE)
    (recent : (resets (session.calls.take reading)).length < cookie + S) :
    ∃ measured, (session.timer reading).elapsed cookie now = some measured ∧
      (session.Clocked now → measured = now - instant) := by
  have reset := List.mem_of_getElem? present
  have ordered := session.instant_le call reset
  have created := session.created_le (slot cookie) reset
  have stamped := session.stamped_timer indexed reading
  constructor
  constructor
  · exact stamped.elapsed_of_lt present fits recent now
  · intro clocked
    exact elapsed_stampedAt created ordered (clocked (slot cookie))

/-- After that, or where the sum of the cookie and `S` wraps, it measures nothing. -/
theorem elapsed_of_old [NeZero S] (session : Session S) (indexed : session.Indexed)
    (slots : S < U64_SIZE) {reading cookie : Nat} (now : Nat)
    (passed : cookie ≤ (resets (session.calls.take reading)).length)
    (old : cookie + S < U64_SIZE →
      cookie + S ≤ (resets (session.calls.take reading)).length) :
    (session.timer reading).elapsed cookie now = none := by
  have bounded := session.length_resets_take_le reading
  unfold Indexed at indexed
  apply (session.stamped_timer indexed reading).elapsed_of_le
  by_cases fits : cookie + S < U64_SIZE
  · rw [Nat.mod_eq_of_lt fits]
    exact old fits
  · rw [Nat.mod_eq_sub_mod (Nat.le_of_not_lt fits), Nat.mod_eq_of_lt (by omega)]
    omega

/-- A cookie times the first reset after it. -/
theorem elapsed_first_reset (session : Session S) (slots : 0 < S ∧ S < U64_SIZE)
    (indexed : session.Indexed) {asking reading cookie instant now : Nat} {later : List Nat}
    (asked : session.answer asking = some (.cookie cookie)) (before : asking < reading)
    (call : session.calls[reading]? = some ⟨now, .elapsed cookie⟩)
    (first : session.resetsBetween asking reading = instant :: later) :
    ∃ duration, session.answer reading = some (.elapsed duration) ∧
      (session.Clocked now → duration = none ∨ duration = some (now - instant)) ∧
        (later.length + 1 < S → cookie + S < U64_SIZE → duration ≠ none) ∧
          (S < later.length + 1 → duration = none) := by
  have : NeZero S := neZero (Nat.ne_of_gt slots.1)
  have split := session.resets_take (Nat.le_of_lt before)
  have number := session.cookie_eq indexed asked
  have total : (resets (session.calls.take reading)).length = cookie + (later.length + 1) := by
    rw [split, List.length_append, first, List.length_cons, number]
  have answered : session.answer reading =
      some (.elapsed ((session.timer reading).elapsed cookie now)) := by
    rw [answer, call]
    rfl
  constructor
  constructor
  · exact answered
  by_cases valid : cookie + S < U64_SIZE ∧ later.length + 1 < S
  · have present : (resets (session.calls.take reading))[cookie]? = some instant := by
      rw [split, number, List.getElem?_append_right (Nat.le_refl _), Nat.sub_self, first]
      rfl
    obtain ⟨measured, result, exact_⟩ :=
      session.elapsed_of_recent indexed call present valid.1 (by omega)
    rw [result]
    constructor
    · intro clocked
      exact .inr (congrArg some (exact_ clocked))
    constructor
    · intro _ _
      exact Option.some_ne_none _
    · intro old
      omega
  · rw [session.elapsed_of_old indexed slots.2 now (by omega) (by omega)]
    constructor
    · exact fun _ => .inl rfl
    constructor
    · intro recent fits
      exact absurd ⟨fits, recent⟩ valid
    · exact fun _ => rfl

/-- Timers that are created when the clock starts. -/
theorem created_zero (calls : List Timed) :
    ∀ _slot : Fin S, (0, 0).1 ≤ (0, 0).2 ∧ ∀ timed ∈ calls, (0, 0).2 ≤ timed.instant :=
  fun _ => ⟨Nat.le_refl 0, fun timed _ => Nat.zero_le timed.instant⟩

/-- Some resets, a cookie, one more reset and a look at it, all at one instant. -/
def lateCalls (count : Nat) : List Timed :=
  List.replicate count ⟨0, .reset⟩ ++ [⟨0, .cookie⟩, ⟨0, .reset⟩, ⟨0, .elapsed count⟩]

theorem instant_lateCalls {count : Nat} {timed : Timed} (member : timed ∈ lateCalls count) :
    timed.instant = 0 := by
  simp only [lateCalls, List.mem_append, List.mem_replicate, List.mem_cons, List.not_mem_nil,
    or_false] at member
  rcases member with ⟨_, rfl⟩ | rfl | rfl | rfl <;> rfl

theorem lateCalls_ordered (count : Nat) :
    ((lateCalls count).map Timed.instant).Pairwise (· ≤ ·) := by
  apply List.pairwise_map.mpr
  apply List.pairwise_of_forall_mem_list
  intro first firstMember second secondMember
  apply Nat.le_of_eq
  rw [instant_lateCalls firstMember, instant_lateCalls secondMember]

/-- The session of `lateCalls`, whose slots are created at 0. -/
def late (count : Nat) : Session 2 where
  readings _ := (0, 0)
  calls := lateCalls count
  ordered := lateCalls_ordered count
  created := created_zero (lateCalls count)

theorem late_take (count extra : Nat) :
    (late count).calls.take (count + extra) = List.replicate count ⟨0, .reset⟩ ++
      [⟨0, .cookie⟩, ⟨0, .reset⟩, ⟨0, .elapsed count⟩].take extra := by
  simp [late, lateCalls, List.take_append]

theorem late_getElem? (count extra : Nat) :
    (late count).calls[count + extra]? =
      [⟨0, .cookie⟩, ⟨0, .reset⟩, ⟨0, .elapsed count⟩][extra]? := by
  simp [late, lateCalls, List.getElem?_append_right]

theorem resets_late_take (count extra : Nat) :
    resets ((late count).calls.take (count + extra)) = List.replicate count 0 ++
      resets ([⟨0, .cookie⟩, ⟨0, .reset⟩, ⟨0, .elapsed count⟩].take extra) := by
  rw [late_take, resets_append]
  simp [resets]

theorem late_indexed {count : Nat} (small : count + 1 < U64_SIZE) : (late count).Indexed := by
  have total : (resets (late count).calls).length = count + 1 := by
    simp [late, lateCalls, resets]
  rw [Indexed, total]
  exact small

/-- The last look finds nothing once the sum of the cookie and `S` wraps. -/
theorem late_answers {count : Nat} (small : count + 1 < U64_SIZE) (wraps : U64_SIZE ≤ count + 2) :
    (late count).answer count = some (.cookie count) ∧
      (late count).resetsBetween count (count + 2) = [0] ∧
        (late count).answer (count + 2) = some (.elapsed none) := by
  have stamped := (late count).stamped_timer (late_indexed small)
  constructor
  · have index := (stamped count).index
    have taken := resets_late_take count 0
    rw [Nat.add_zero] at taken
    rw [taken] at index
    have call := late_getElem? count 0
    rw [Nat.add_zero] at call
    rw [answer, call]
    simpa [perform, SplitTimer.cookie, resets] using index
  constructor
  · rw [resetsBetween, late_take]
    simp [resets]
  · have old : (count + 2) % U64_SIZE ≤
        (resets ((late count).calls.take (count + 2))).length := by
      have full : count + 2 = U64_SIZE := by omega
      rw [full, Nat.mod_self]
      exact Nat.zero_le _
    rw [answer, late_getElem?]
    simp [perform, (stamped (count + 2)).elapsed_of_le old]

/-- A cookie, a reset, and a look at it after `u64` nanoseconds. -/
def longCalls : List Timed :=
  [⟨0, .cookie⟩, ⟨0, .reset⟩, ⟨U64_SIZE, .elapsed 0⟩]

theorem longCalls_ordered : (longCalls.map Timed.instant).Pairwise (· ≤ ·) := by
  simp [longCalls]

/-- The session of `longCalls`. -/
def long : Session 2 where
  readings _ := (0, 0)
  calls := longCalls
  ordered := longCalls_ordered
  created := created_zero longCalls

/-- The first sum that wraps hides a reset that still has its slot, and a clock that wraps
makes a reset look recent. -/
theorem elapsed_wraps :
    ((late (U64_SIZE - 2)).Indexed ∧
      (late (U64_SIZE - 2)).answer (U64_SIZE - 2) = some (.cookie (U64_SIZE - 2)) ∧
      (late (U64_SIZE - 2)).resetsBetween (U64_SIZE - 2) (U64_SIZE - 2 + 2) = [0] ∧
      (late (U64_SIZE - 2)).answer (U64_SIZE - 2 + 2) = some (.elapsed none)) ∧
    (long.Indexed ∧ long.answer 0 = some (.cookie 0) ∧ long.resetsBetween 0 2 = [0] ∧
      long.calls[2]? = some ⟨U64_SIZE, .elapsed 0⟩ ∧
      long.answer 2 = some (.elapsed (some 0))) := by
  have small : U64_SIZE - 2 + 1 < U64_SIZE := by decide
  constructor
  · constructor
    · exact late_indexed small
    · exact late_answers small (by decide)
  · unfold Indexed
    decide

/-- A cookie before two resets of three slots. -/
def threeCalls : List Timed :=
  [⟨5, .cookie⟩, ⟨7, .reset⟩, ⟨8, .reset⟩, ⟨9, .elapsed 0⟩]

theorem threeCalls_ordered : (threeCalls.map Timed.instant).Pairwise (· ≤ ·) := by
  simp [threeCalls]

/-- The session of `threeCalls`, with three slots. -/
def three : Session 3 where
  readings _ := (0, 0)
  calls := threeCalls
  ordered := threeCalls_ordered
  created := created_zero threeCalls

theorem elapsed_first_reset_three :
    three.Clocked 9 ∧ ∃ duration, three.answer 3 = some (.elapsed duration) ∧
      (three.Clocked 9 → duration = none ∨ duration = some (9 - 7)) ∧
        (1 + 1 < 3 → 0 + 3 < U64_SIZE → duration ≠ none) ∧ (3 < 1 + 1 → duration = none) := by
  have indexed : three.Indexed := by
    unfold Indexed
    decide
  have clocked : three.Clocked 9 := by
    unfold Clocked
    decide
  have asked : three.answer 0 = some (.cookie 0) := by decide
  have call : three.calls[3]? = some ⟨9, .elapsed 0⟩ := by decide
  have first : three.resetsBetween 0 3 = [7, 8] := by decide
  constructor
  · exact clocked
  · exact three.elapsed_first_reset (by decide) indexed asked (by decide) call first

end Session

end Schtest.Clock.SplitTimer
