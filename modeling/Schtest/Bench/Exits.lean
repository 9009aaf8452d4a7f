import Schtest.Bench.Converge

/-!
# The exits of the loop

`converge` ends with an error of the measurement, with the metric that met its
criterion, or at the time limit.  At the limit it returns a constant, which is
the last metric only by coincidence.
-/

namespace Schtest.Bench

universe u v

variable {E : Type v} {F : Type u} [OfScientific F] [LE F] [DecidableLE F]

/-- The ways out of the loop after a call. -/
inductive Exit where
  | failed
  | criterion
  | timeLimit
  deriving DecidableEq, Repr

/-- The way out that a call gives, unless the loop goes on. -/
def exit (limits : Limits F) (sample : Sample E F) : Option Exit :=
  match sample.metric with
  | .error _ => some .failed
  | .ok metric =>
      if limits.threshold ≤ metric ∧ limits.minTime ≤ sample.elapsed then some .criterion
      else if limits.maxTime < sample.elapsed then some .timeLimit
      else none

section Exit

variable {limits : Limits F} {sample : Sample E F} {m : F}

omit [OfScientific F] in
/-- Metric and time meet the criterion. -/
theorem exit_eq_criterion_iff :
    exit limits sample = some .criterion ↔
      ∃ metric, sample.metric = .ok metric ∧
        limits.threshold ≤ metric ∧ limits.minTime ≤ sample.elapsed := by
  cases returned : sample.metric with
  | error error => simp [exit, returned]
  | ok metric =>
      by_cases met : limits.threshold ≤ metric ∧ limits.minTime ≤ sample.elapsed
      · simp [exit, returned, met]
      · by_cases late : limits.maxTime < sample.elapsed
        · simp [exit, returned, met, late]
        · simp [exit, returned, met, late]

/-- The loop goes on exactly when there is no way out. -/
theorem verdict_eq_none_iff : verdict limits sample = none ↔ exit limits sample = none := by
  cases returned : sample.metric with
  | error error => simp [verdict, exit, returned]
  | ok metric =>
      simp only [verdict, exit, returned]
      split
      · simp
      · split
        · simp
        · simp

/-- The two ways to return a number. -/
theorem verdict_eq_ok_iff :
    verdict limits sample = some (.ok m) ↔
      exit limits sample = some .criterion ∧ sample.metric = .ok m ∨
        exit limits sample = some .timeLimit ∧ m = 0.0 := by
  cases returned : sample.metric with
  | error error => simp [verdict, exit, returned]
  | ok metric =>
      simp only [verdict, exit, returned]
      split
      · simp
      · split
        · simp [eq_comm]
        · simp

omit [OfScientific F] in
theorem maxTime_lt_of_exit (limit : exit limits sample = some .timeLimit) :
    limits.maxTime < sample.elapsed := by
  unfold exit at limit
  split at limit
  · contradiction
  · split at limit
    · contradiction
    · split at limit
      · assumption
      · contradiction

end Exit

/-! ## What a run returns -/

section Run

variable (scale : Nat → Nat → Nat → Nat) (limits : Limits F) (measure : Nat → Nat → Sample E F)

/-- The loop returns a number after the call that follows `n` others. -/
def Returns (n : Nat) (m : F) : Prop :=
  (converge scale limits measure n).result = none ∧
    (converge scale limits measure (n + 1)).result = some (.ok m)

/-- What is returned is the last metric, and it tells whether the criterion ended the loop. -/
structure ReturnsLast (n : Nat) (m : F) : Prop where
  last : (sampleAt scale limits measure n).metric = .ok m
  first : ∀ k < n, exit limits (sampleAt scale limits measure k) ≠ some .criterion
  criterion : limits.threshold ≤ m ∧ limits.minTime ≤ (sampleAt scale limits measure n).elapsed ↔
    exit limits (sampleAt scale limits measure n) = some .criterion
  timeLimit : exit limits (sampleAt scale limits measure n) ≠ some .criterion →
    limits.maxTime < (sampleAt scale limits measure n).elapsed

variable {scale limits measure}

theorem Returns.verdict_eq {n : Nat} {m : F} (returns : Returns scale limits measure n m) :
    verdict limits (sampleAt scale limits measure n) = some (.ok m) := by
  have goesOn := (converge_result_eq_none_iff scale limits measure n).mp returns.1
  have returned := returns.2
  rw [converge, converge_eq_of_forall scale limits measure goesOn] at returned
  exact returned

/-- Only the last call gives a way out. -/
theorem Returns.exit_eq_none {n : Nat} {m : F} (returns : Returns scale limits measure n m)
    {k : Nat} (earlier : k < n) : exit limits (sampleAt scale limits measure k) = none := by
  have goesOn := (converge_result_eq_none_iff scale limits measure n).mp returns.1
  exact verdict_eq_none_iff.mp (goesOn k earlier)

/-- Where the last metric is returned, everything else is as it should be. -/
theorem Returns.returnsLast {n : Nat} {m : F} (returns : Returns scale limits measure n m)
    (last : (sampleAt scale limits measure n).metric = .ok m) :
    ReturnsLast scale limits measure n m := by
  constructor
  case last => exact last
  case first =>
    intro k earlier
    rw [returns.exit_eq_none earlier]
    exact (Option.some_ne_none _).symm
  case criterion =>
    rw [exit_eq_criterion_iff, last]
    simp
  case timeLimit =>
    intro notMet
    rcases verdict_eq_ok_iff.mp returns.verdict_eq with ⟨met, _⟩ | ⟨limit, _⟩
    · exact absurd met notMet
    · exact maxTime_lt_of_exit limit

/-- The last metric is returned exactly when it met the criterion or is zero. -/
theorem returnsLast_iff (scale : Nat → Nat → Nat → Nat) (limits : Limits F)
    (measure : Nat → Nat → Sample E F) {n : Nat} {m : F}
    (returns : Returns scale limits measure n m) :
    ReturnsLast scale limits measure n m ↔
      ∃ metric, (sampleAt scale limits measure n).metric = .ok metric ∧
        (limits.threshold ≤ metric ∧
          limits.minTime ≤ (sampleAt scale limits measure n).elapsed ∨ metric = 0.0) := by
  have exits := verdict_eq_ok_iff.mp returns.verdict_eq
  constructor
  case mp =>
    intro returnsLast
    constructor
    constructor
    · exact returnsLast.last
    · rcases exits with ⟨met, _⟩ | ⟨_, zero⟩
      · exact .inl (returnsLast.criterion.mpr met)
      · exact .inr zero
  case mpr =>
    rintro ⟨metric, returned, condition⟩
    apply returns.returnsLast
    rcases exits with ⟨_, last⟩ | ⟨limit, rfl⟩
    · exact last
    · rcases condition with met | rfl
      · have criterion := exit_eq_criterion_iff.mpr ⟨metric, returned, met⟩
        rw [limit] at criterion
        contradiction
      · exact returned

end Run

/-- A measurement of one half that takes eleven seconds. -/
def elevenSeconds : Nat → Nat → Sample Empty ℚ :=
  fun _ _ => ⟨.ok 0.5, fromSecs 11⟩

theorem elevenSeconds_returns :
    Returns exactScale (limits none none none) elevenSeconds 0 0.0 := by
  constructor
  · rfl
  · norm_num [converge, verdict, elevenSeconds, limits, fromSecs]

theorem returnsLast_iff_elevenSeconds :
    ReturnsLast exactScale (limits none none none) elevenSeconds 0 0.0 ↔
      ∃ metric, (sampleAt exactScale (limits none none none) elevenSeconds 0).metric = .ok metric ∧
        ((limits none none none : Limits ℚ).threshold ≤ metric ∧
          (limits none none none : Limits ℚ).minTime ≤
            (sampleAt exactScale (limits none none none) elevenSeconds 0).elapsed ∨
              metric = 0.0) :=
  returnsLast_iff exactScale (limits none none none) elevenSeconds elevenSeconds_returns

/-- With the default limits one half is measured, and zero is returned. -/
theorem elevenSeconds_not_returnsLast :
    Returns exactScale (limits none none none) elevenSeconds 0 0.0 ∧
      ¬ ReturnsLast exactScale (limits none none none) elevenSeconds 0 0.0 := by
  constructor
  · exact elevenSeconds_returns
  · intro returnsLast
    have last := returnsLast.last
    norm_num [sampleAt, elevenSeconds] at last

end Schtest.Bench
