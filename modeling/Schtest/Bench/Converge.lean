import Mathlib.Algebra.Order.BigOperators.Group.Finset
import Mathlib.Algebra.Order.Field.Rat
import Mathlib.Tactic.NormNum

/-!
# Running a measurement until it converges

`converge` calls its measurement with a growing number of iterations.  Each
call is compared with the limits on its own, so that the time spent in all
calls together is bounded only where a single call ends the loop in time.

Times are in nanoseconds.  A metric is a value of an arbitrary type with an
arbitrary comparison, as `f64` is one, and the floating-point estimate of the
next iteration count is an arbitrary function.
-/

namespace Schtest.Bench

universe u v

/-- `u32::MAX`, the bound of the iterations. -/
def U32_MAX : Nat := 2 ^ 32 - 1

/-- `a.saturating_mul(b)`. -/
def saturatingMul (a b : Nat) : Nat :=
  Nat.min (a * b) U32_MAX

/-- `Duration::from_secs(secs)`. -/
def fromSecs (secs : Nat) : Nat :=
  secs * 1000000000

/-- The limits of a run. -/
structure Limits (F : Type u) where
  minTime : Nat
  maxTime : Nat
  threshold : F

/-- One call of `measure`: what it returned, and how long it took. -/
structure Sample (E : Type v) (F : Type u) where
  metric : Except E F
  elapsed : Nat

variable {E : Type v} {F : Type u} [OfScientific F] [LE F] [DecidableLE F]

/-- The limits with their defaults. -/
def limits (minTime maxTime : Option Nat) (threshold : Option F) : Limits F where
  minTime := minTime.getD (fromSecs 1)
  maxTime := maxTime.getD (fromSecs 10)
  threshold := threshold.getD 0.95

/-- The next iteration count.  `scale iters minTime elapsed` is
`((iters as f64) * min_time_ns / elapsed_ns).ceil() as u32`. -/
def nextIters (scale : Nat → Nat → Nat → Nat) (limits : Limits F) (iters elapsed : Nat) : Nat :=
  if elapsed < limits.minTime ∧ iters < U32_MAX / 2 then
    if elapsed = 0 then saturatingMul iters 100
    else
      Nat.min (Nat.max (scale iters limits.minTime elapsed) (iters + 1)) (saturatingMul iters 100)
  else if elapsed < limits.maxTime ∧ iters < U32_MAX / 2 then saturatingMul iters 2
  else iters

/-- The loop body after the call: the value it returns, unless it goes on. -/
def verdict (limits : Limits F) (sample : Sample E F) : Option (Except E F) :=
  match sample.metric with
  | .error error => some (.error error)
  | .ok metric =>
      if limits.threshold ≤ metric ∧ limits.minTime ≤ sample.elapsed then some (.ok metric)
      else if limits.maxTime < sample.elapsed then some (.ok 0.0)
      else none

/-- The state of the loop: the next iteration count, the time spent in all the
calls so far, and the value that is returned. -/
structure Loop (E : Type v) (F : Type u) where
  iters : Nat
  spent : Nat
  result : Option (Except E F)

/-- The loop after `n` calls of `measure`, or fewer where it has returned.  What
a call answers may depend on the calls before it and on `iters`. -/
def converge (scale : Nat → Nat → Nat → Nat) (limits : Limits F)
    (measure : Nat → Nat → Sample E F) : Nat → Loop E F
  | 0 => ⟨1, 0, none⟩
  | n + 1 =>
      let loop := converge scale limits measure n
      if loop.result.isSome then loop
      else
        let sample := measure n loop.iters
        ⟨nextIters scale limits loop.iters sample.elapsed, loop.spent + sample.elapsed,
          verdict limits sample⟩

/-- The answers of a call that leave nothing to wait for: an error, a metric that reaches the
threshold after at least the minimum time, or a time over the limit. -/
def Sample.Ends (limits : Limits F) (sample : Sample E F) : Prop :=
  (∃ error, sample.metric = .error error) ∨
    (∃ metric, sample.metric = .ok metric ∧ limits.threshold ≤ metric ∧
      limits.minTime ≤ sample.elapsed) ∨
    limits.maxTime < sample.elapsed

/-- The loop body returns a value exactly for these answers. -/
theorem isSome_verdict_iff {limits : Limits F} {sample : Sample E F} :
    (verdict limits sample).isSome = true ↔ sample.Ends limits := by
  unfold verdict Sample.Ends
  cases sample.metric with
  | error error => simp
  | ok metric =>
      by_cases met : limits.threshold ≤ metric ∧ limits.minTime ≤ sample.elapsed
      · simp [met]
      · by_cases late : limits.maxTime < sample.elapsed
        · simp [met, late]
        · simp [met, late]

theorem le_saturatingMul {a b : Nat} (small : a ≤ U32_MAX) (pos : 0 < b) :
    a ≤ saturatingMul a b :=
  Nat.le_min.mpr ⟨Nat.le_mul_of_pos_right a pos, small⟩

omit [OfScientific F] [LE F] [DecidableLE F] in
/-- The iteration count stays a `u32` and never decreases. -/
theorem nextIters_bounds (scale : Nat → Nat → Nat → Nat) (limits : Limits F) {iters : Nat}
    (elapsed : Nat) (small : iters ≤ U32_MAX) :
    iters ≤ nextIters scale limits iters elapsed ∧
      nextIters scale limits iters elapsed ≤ U32_MAX := by
  have grows (b : Nat) (pos : 0 < b) :
      iters ≤ saturatingMul iters b ∧ saturatingMul iters b ≤ U32_MAX :=
    ⟨le_saturatingMul small pos, Nat.min_le_right _ _⟩
  unfold nextIters
  split
  · split
    · exact grows 100 (by decide)
    · obtain ⟨more, few⟩ := grows 100 (by decide)
      have estimated : iters ≤ Nat.max (scale iters limits.minTime elapsed) (iters + 1) :=
        (Nat.le_succ iters).trans (Nat.le_max_right _ _)
      exact ⟨Nat.le_min.mpr ⟨estimated, more⟩, (Nat.min_le_right _ _).trans few⟩
  · split
    · exact grows 2 (by decide)
    · exact ⟨le_rfl, small⟩

section Run

variable (scale : Nat → Nat → Nat → Nat) (limits : Limits F) (measure : Nat → Nat → Sample E F)

/-- The iteration counts that the growth rule gives one after the other. -/
def itersAt : Nat → Nat
  | 0 => 1
  | n + 1 => nextIters scale limits (itersAt n) (measure n (itersAt n)).elapsed

omit [OfScientific F] [LE F] [DecidableLE F] in
/-- `measure` is called with counts from 1 to `u32::MAX`. -/
theorem itersAt_bounds (n : Nat) :
    1 ≤ itersAt scale limits measure n ∧ itersAt scale limits measure n ≤ U32_MAX := by
  induction n with
  | zero =>
      have small : 1 ≤ U32_MAX := by
        decide
      exact ⟨le_rfl, small⟩
  | succ n ih =>
      obtain ⟨grows, small⟩ := nextIters_bounds scale limits
        (measure n (itersAt scale limits measure n)).elapsed ih.2
      exact ⟨ih.1.trans grows, small⟩

/-- What the call after `n` others answers. -/
def sampleAt (n : Nat) : Sample E F :=
  measure n (itersAt scale limits measure n)

/-- The time that `n` calls take. -/
def spentBy (n : Nat) : Nat :=
  ∑ k ∈ Finset.range n, (sampleAt scale limits measure k).elapsed

/-- `converge` returns, and it makes no call once the calls before have taken
more than the time limit together. -/
structure RespectsLimit : Prop where
  returns : ∃ n, (converge scale limits measure n).result.isSome = true
  stops : ∀ n, (converge scale limits measure n).result = none →
    (converge scale limits measure n).spent ≤ limits.maxTime

/-- The loop goes on as long as no call has given it a value to return. -/
theorem converge_eq_of_forall {n : Nat}
    (goesOn : ∀ k < n, verdict limits (sampleAt scale limits measure k) = none) :
    converge scale limits measure n =
      ⟨itersAt scale limits measure n, spentBy scale limits measure n, none⟩ := by
  induction n with
  | zero => rfl
  | succ n ih =>
      have before := ih fun k less => goesOn k (Nat.lt_succ_of_lt less)
      have last := goesOn n (Nat.lt_succ_self n)
      rw [converge, before]
      simp only [Option.isSome_none, Bool.false_eq_true, if_false]
      rw [sampleAt] at last
      rw [last, spentBy, spentBy, Finset.sum_range_succ]
      rfl

/-- The loop has returned as soon as some call has given it a value. -/
theorem converge_result_eq_none_iff (n : Nat) :
    (converge scale limits measure n).result = none ↔
      ∀ k < n, verdict limits (sampleAt scale limits measure k) = none := by
  induction n with
  | zero => simp [converge]
  | succ n ih =>
      rw [Nat.forall_lt_succ_right, ← ih, converge]
      cases result : (converge scale limits measure n).result with
      | some value => simp [result]
      | none =>
          have before := converge_eq_of_forall scale limits measure (ih.mp result)
          simp [before, sampleAt]

omit [OfScientific F] [LE F] [DecidableLE F] in
theorem spentBy_mono {n m : Nat} (le : n ≤ m) :
    spentBy scale limits measure n ≤ spentBy scale limits measure m :=
  Finset.sum_le_sum_of_subset (Finset.range_mono le)

/-- `converge` respects its time limit exactly when some call that begins in
time fails, or reaches the threshold and lasts for the minimum time, or exceeds
the limit all by itself. -/
theorem respectsLimit_iff :
    RespectsLimit scale limits measure ↔
      ∃ n, (sampleAt scale limits measure n).Ends limits ∧
        spentBy scale limits measure n ≤ limits.maxTime := by
  simp only [← isSome_verdict_iff]
  have running_iff := converge_result_eq_none_iff scale limits measure
  constructor
  case mp =>
    rintro ⟨⟨n, returned⟩, stops⟩
    have ended : ∃ k, (verdict limits (sampleAt scale limits measure k)).isSome = true := by
      by_contra none_ends
      have running := (running_iff n).mpr fun k _ => by
        rw [← Option.not_isSome_iff_eq_none]
        exact fun ends => none_ends ⟨k, ends⟩
      rw [running] at returned
      contradiction
    -- the first call that ends the loop begins while it is still running
    have earlier (k : Nat) (less : k < Nat.find ended) :
        verdict limits (sampleAt scale limits measure k) = none := by
      rw [← Option.not_isSome_iff_eq_none]
      exact Nat.find_min ended less
    have inTime := stops (Nat.find ended) ((running_iff _).mpr earlier)
    rw [converge_eq_of_forall scale limits measure earlier] at inTime
    exact ⟨Nat.find ended, Nat.find_spec ended, inTime⟩
  case mpr =>
    rintro ⟨n, ends, inTime⟩
    constructor
    case returns =>
      refine ⟨n + 1, ?_⟩
      cases result : (converge scale limits measure (n + 1)).result with
      | some value => rfl
      | none =>
          rw [(running_iff _).mp result n (Nat.lt_succ_self n)] at ends
          contradiction
    case stops =>
      intro m running
      have goesOn := (running_iff m).mp running
      have early : m ≤ n := by
        by_contra late
        rw [goesOn n (Nat.lt_of_not_le late)] at ends
        contradiction
      rw [converge_eq_of_forall scale limits measure goesOn]
      exact (spentBy_mono scale limits measure early).trans inTime

end Run

/-- The estimate without rounding errors. -/
def exactScale (iters minTime elapsed : Nat) : Nat :=
  Nat.min ((iters * minTime + elapsed - 1) / elapsed) U32_MAX

/-- A measurement that takes 10 s and never reaches the threshold. -/
def tenSeconds : Nat → Nat → Sample Empty ℚ :=
  fun _ _ => ⟨.ok 0, fromSecs 10⟩

/-- With the default limits, a call of exactly 10 s neither ends the loop nor
makes it grow, so that it goes on forever. -/
theorem converge_never_returns :
    (∀ n, (converge exactScale (limits none none none) tenSeconds n).result = none) ∧
      ¬ RespectsLimit exactScale (limits none none none) tenSeconds := by
  have never (n : Nat) :
      (converge exactScale (limits none none none) tenSeconds n).result = none := by
    rw [converge_result_eq_none_iff]
    intro k _
    have below : ¬ (limits none none none : Limits ℚ).threshold ≤ 0 := by
      norm_num [limits]
    simp [verdict, sampleAt, tenSeconds, below]
    rfl
  refine ⟨never, ?_⟩
  rintro ⟨⟨n, returned⟩, _⟩
  rw [never n] at returned
  contradiction

end Schtest.Bench
