import Schtest.Bench.Exits
import Schtest.Stats.Distribution
import Schtest.Topology.ComeTogether

/-!
# The verdicts of the tests

The four tests hand a metric to `converge` and compare what it returns with their
target.  `fairness` and `adaptive_priority` propagate its errors; `spread_out` and
`come_together` use the macro `converge!`, which asserts its result.
-/

namespace Schtest.Cases

open Schtest.Bench Schtest.Stats Schtest.Topology

/-- How a test ends early: with a panic, or with an error. -/
inductive Failure
  | panicked
  | failed (error : String)
  deriving DecidableEq, Repr

/-! ## Quotients -/

/-- An `f64` that comes from divisions of numbers that are not negative. -/
inductive Number
  | finite (value : F64)
  | infinite
  | nan
  deriving DecidableEq

namespace Number

/-- `<=` of `f64`: the infinity is above all numbers, and NaN is not comparable. -/
def le : Number → Number → Prop
  | .finite x, .finite y => x ≤ y
  | .finite _, .infinite => True
  | .infinite, .infinite => True
  | _, _ => False

/-- `<` of `f64`. -/
def lt : Number → Number → Prop
  | .finite x, .finite y => x < y
  | .finite _, .infinite => True
  | _, _ => False

instance : LE Number := ⟨le⟩
instance : LT Number := ⟨lt⟩

instance : DecidableLE Number
  | .finite x, .finite y => inferInstanceAs (Decidable (x ≤ y))
  | .finite _, .infinite => isTrue trivial
  | .infinite, .infinite => isTrue trivial
  | .finite _, .nan | .infinite, .finite _ | .infinite, .nan => isFalse id
  | .nan, .finite _ | .nan, .infinite | .nan, .nan => isFalse id

instance : DecidableLT Number
  | .finite x, .finite y => inferInstanceAs (Decidable (x < y))
  | .finite _, .infinite => isTrue trivial
  | .infinite, .infinite | .finite _, .nan | .infinite, .finite _ | .infinite, .nan => isFalse id
  | .nan, .finite _ | .nan, .infinite | .nan, .nan => isFalse id

instance : OfScientific Number where
  ofScientific m s e := .finite (OfScientific.ofScientific m s e)

/-- A quotient of numbers that are not negative. -/
def ofDiv (a b : F64) : Number :=
  if b ≠ 0 then .finite (a / b) else if a = 0 then .nan else .infinite

/-- The quotient of a number and a quotient. -/
def divBy (a : F64) : Number → Number
  | .finite b => ofDiv a b
  | .infinite => .finite 0
  | .nan => .nan

@[simp]
theorem finite_le_finite {x y : F64} : finite x ≤ finite y ↔ x ≤ y :=
  Iff.rfl

@[simp]
theorem finite_lt_finite {x y : F64} : finite x < finite y ↔ x < y :=
  Iff.rfl

/-- Nothing that meets a threshold is below it. -/
theorem not_lt_of_le {x y : Number} (le : x ≤ y) : ¬ y < x := by
  intro less
  cases x with
  | finite x =>
      cases y with
      | finite y => exact not_lt.mpr (finite_le_finite.mp le) (finite_lt_finite.mp less)
      | infinite => exact less
      | nan => exact le
  | infinite =>
      cases y with
      | finite y => exact le
      | infinite => exact less
      | nan => exact le
  | nan => cases y <;> exact le

theorem finite_le_ofDiv {a b threshold : F64} (numerator : 0 ≤ a) (divisor : 0 ≤ b)
    (positive : 0 < threshold) :
    finite threshold ≤ ofDiv a b ↔ 0 < a ∧ threshold * b ≤ a := by
  unfold ofDiv
  split
  case isTrue nonzero =>
    have above : 0 < b := lt_of_le_of_ne divisor (Ne.symm nonzero)
    rw [finite_le_finite, le_div_iff₀ above]
    constructor
    · intro le
      exact ⟨(mul_pos positive above).trans_le le, le⟩
    · exact And.right
  case isFalse zero =>
    have same : b = 0 := not_not.mp zero
    split
    case isTrue none =>
      exact iff_of_false id fun both => both.1.ne' none
    case isFalse some =>
      have above : 0 < a := lt_of_le_of_ne numerator (Ne.symm some)
      exact iff_of_true trivial ⟨above, by simpa [same] using numerator⟩

end Number

/-! ## The source -/

section Source

variable (format : Number → String)

/-- The error of a test, with the numbers as `{:.2}` writes them. -/
def missed (finalValue target : Number) : Failure :=
  .failed ("Failed to achieve target: got " ++ format finalValue ++ ", expected " ++
    format target)

/-- `if final_value < target { Err(..) } else { Ok(()) }`. -/
def atLeast (target finalValue : Number) : Except Failure Unit :=
  if finalValue < target then .error (missed format finalValue target) else .ok ()

/-- `if final_value >= target { Err(..) } else { Ok(()) }`. -/
def below (target finalValue : Number) : Except Failure Unit :=
  if target ≤ finalValue then .error (missed format finalValue target) else .ok ()

/-- The macro `converge!`: every failure becomes a panic, and the result is asserted. -/
def asserted (threshold : Number) : Except Failure Number → Except Failure Number
  | .ok metric => if threshold ≤ metric then .ok metric else .error .panicked
  | .error _ => .error .panicked

/-- What a metric that may panic or fail gives. -/
def ofAnswer {α : Type} : Option (Except String α) → Except Failure α
  | none => .error .panicked
  | some (.error error) => .error (.failed error)
  | some (.ok value) => .ok value

variable {D : Type} (tdigest : TDigest D) (debug : Duration → List Char) (terminal : Option Nat)

/-- `eprintln!("{}", estimates.visualize(None))`. -/
def draw (estimates : Estimates Duration) : Except Failure Unit :=
  match estimates.visualize debug none terminal with
  | none => .error .panicked
  | some _ => .ok ()

/-- The metric of `fairness`: the answer of `ctx.wait()`, and the total time of each
process, unless its statistics cannot be read. -/
def fairnessMetric (waited : Except String Unit) (stats : List (Option Duration)) :
    Except Failure Number := do
  waited.mapError .failed
  let d := stats.reduceOption.foldl (Distribution.add tdigest) (Distribution.new tdigest)
  let times := stats.map fun time => (time.map Duration.asSecsF64).getD 0
  let mean := Number.ofDiv times.sum times.length
  let estimates := d.estimates tdigest
  draw debug terminal estimates
  match estimates.percentile (1 / 10) with
  | some p10 => .ok (Number.divBy p10.asSecsF64 mean)
  | none => .ok 0.0

/-- The metric of `adaptive_priority`: the answer of `ctx.wait()`, and the samples in the
reservoirs of the two semaphores. -/
def adaptiveMetric (waited : Except String Unit) (fastSem slowSem : List Duration) :
    Except Failure Number := do
  waited.mapError .failed
  let dFast := (Distribution.new tdigest).addAll tdigest fastSem
  let dSlow := (Distribution.new tdigest).addAll tdigest slowSem
  let fastEst := dFast.estimates tdigest
  let slowEst := dSlow.estimates tdigest
  draw debug terminal fastEst
  draw debug terminal slowEst
  match fastEst.percentile (9 / 10) with
  | none => .error (.failed "No p90 for fast semaphore")
  | some p90Fast =>
      match slowEst.percentile (9 / 10) with
      | none => .error (.failed "No p90 for slow semaphore")
      | some p90Slow => .ok (Number.ofDiv p90Fast.asSecsF64 p90Slow.asSecsF64)

/-! The tests after their set-up, when `n` rounds have been measured.  A round answers with
what the metric reads, and takes a time; both may depend on the iterations. -/

variable (scale : Nat → Nat → Nat → Nat)

/-- What `fairness` finds in a round. -/
structure FairnessRound where
  waited : Except String Unit
  stats : List (Option Duration)
  elapsed : Nat

/-- What the closure of `fairness` answers in round `k`. -/
def fairnessSamples (rounds : Nat → Nat → FairnessRound) (k iters : Nat) :
    Sample Failure Number :=
  let round := rounds k iters
  ⟨fairnessMetric tdigest debug terminal round.waited round.stats, round.elapsed⟩

/-- At least five seconds, at most ten, and a metric of 0.6. -/
def fairnessLimits : Limits Number :=
  limits (some (fromSecs 5)) (some (fromSecs 10)) (some 0.60)

/-- `fairness`, for at most `n` rounds. -/
def fairness (rounds : Nat → Nat → FairnessRound) (n : Nat) : Option (Except Failure Unit) :=
  (converge scale fairnessLimits (fairnessSamples tdigest debug terminal rounds) n).result.map
    fun final => final.bind (atLeast format 0.60)

/-- What `adaptive_priority` finds in a round. -/
structure AdaptiveRound where
  waited : Except String Unit
  fastSem : List Duration
  slowSem : List Duration
  elapsed : Nat

/-- What the closure of `adaptive_priority` answers in round `k`. -/
def adaptiveSamples (rounds : Nat → Nat → AdaptiveRound) (k iters : Nat) :
    Sample Failure Number :=
  let round := rounds k iters
  ⟨adaptiveMetric tdigest debug terminal round.waited round.fastSem round.slowSem, round.elapsed⟩

/-- At least five seconds, at most ten, and a metric of 0.5. -/
def adaptiveLimits : Limits Number :=
  limits (some (fromSecs 5)) (some (fromSecs 10)) (some 0.50)

/-- `adaptive_priority`, for at most `n` rounds: it passes below its target. -/
def adaptivePriority (rounds : Nat → Nat → AdaptiveRound) (n : Nat) :
    Option (Except Failure Unit) :=
  (converge scale adaptiveLimits (adaptiveSamples tdigest debug terminal rounds) n).result.map
    fun final => final.bind (below format 0.50)

/-- `converge!((1.0, 30.0), 0.95, metric)` and the comparison that follows it. -/
def topologyLimits : Limits Number :=
  limits (some (fromSecs 1)) (some (fromSecs 30)) (some 0.95)

/-- A test that hands `converge!` its samples and compares the result with 0.95. -/
def asserting (samples : Nat → Nat → Sample Failure Number) (n : Nat) :
    Option (Except Failure Unit) :=
  (converge scale topologyLimits samples n).result.map
    fun final => (asserted 0.95 final).bind (atLeast format 0.95)

/-- What `spread_out` finds in a round. -/
structure SpreadOutRound where
  handles : List Handle
  lastCpu : Nat → Nat → BitVec 32
  waited : Except String Unit
  elapsed : Nat

/-- What the closure of `spread_out` answers in round `k`. -/
def spreadOutSamples (system : System) (rounds : Nat → Nat → SpreadOutRound) (k iters : Nat) :
    Sample Failure Number :=
  let round := rounds k iters
  let answer := spreadOutMetric system round.handles round.lastCpu round.waited iters
  ⟨(ofAnswer answer).map .finite, round.elapsed⟩

/-- `cores[0]` panics before the first round where there is no core. -/
def spreadOut (system : System) (rounds : Nat → Nat → SpreadOutRound) (n : Nat) :
    Option (Except Failure Unit) :=
  if system.cores = [] then some (.error .panicked)
  else asserting format scale (spreadOutSamples system rounds) n

/-- What `come_together` finds in a round. -/
structure ComeTogetherRound where
  lastCpu : Nat → Nat → Nat → BitVec 32
  waited : Except String Unit
  elapsed : Nat

/-- What the closure of `come_together` answers in round `k`: 0/0 is NaN. -/
def comeTogetherSamples (system : System) (rounds : Nat → Nat → ComeTogetherRound)
    (k iters : Nat) : Sample Failure Number :=
  let round := rounds k iters
  let answer := comeTogetherMetric system round.lastCpu round.waited iters
  ⟨(ofAnswer answer).map fun metric => (metric.map Number.finite).getD .nan, round.elapsed⟩

/-- `come_together`, for at most `n` rounds. -/
def comeTogether (system : System) (rounds : Nat → Nat → ComeTogetherRound) (n : Nat) :
    Option (Except Failure Unit) :=
  asserting format scale (comeTogetherSamples system rounds) n

end Source

/-! ## The end of the loop -/

section Loop

variable {scale : Nat → Nat → Nat → Nat} {limits : Limits Number}
  {measure : Nat → Nat → Sample Failure Number}

/-- The rounds before have let the loop go on, and this one ends it. -/
def EndsAt (scale : Nat → Nat → Nat → Nat) (limits : Limits Number)
    (measure : Nat → Nat → Sample Failure Number) (k : Nat) (result : Except Failure Number) :
    Prop :=
  (∀ j < k, exit limits (sampleAt scale limits measure j) = none) ∧
    verdict limits (sampleAt scale limits measure k) = some result

theorem EndsAt.result_eq {k n : Nat} {result : Except Failure Number}
    (ends : EndsAt scale limits measure k result) (later : k < n) :
    (converge scale limits measure n).result = some result := by
  obtain ⟨goesOn, ended⟩ := ends
  have before := converge_eq_of_forall scale limits measure
    fun j less => verdict_eq_none_iff.mpr (goesOn j less)
  induction n with
  | zero => exact absurd later (Nat.not_lt_zero k)
  | succ n ih =>
      rw [converge]
      rcases Nat.lt_succ_iff_lt_or_eq.mp later with earlier | rfl
      · simp [ih earlier]
      · rw [before]
        simpa [sampleAt] using ended

/-- The loop returns what the first round gives that does not let it go on. -/
theorem result_eq_some_iff {n : Nat} {result : Except Failure Number} :
    (converge scale limits measure n).result = some result ↔
      ∃ k < n, EndsAt scale limits measure k result := by
  constructor
  case mp =>
    intro returned
    have ended : ∃ k, k < n ∧ verdict limits (sampleAt scale limits measure k) ≠ none := by
      by_contra goesOn
      push Not at goesOn
      rw [(converge_result_eq_none_iff scale limits measure n).mpr goesOn] at returned
      cases returned
    obtain ⟨less, ends⟩ := Nat.find_spec ended
    obtain ⟨value, isValue⟩ := Option.ne_none_iff_exists'.mp ends
    have first : EndsAt scale limits measure (Nat.find ended) value := by
      constructor
      · intro j earlier
        have goesOn := Nat.find_min ended earlier
        rw [not_and, not_not] at goesOn
        exact verdict_eq_none_iff.mp (goesOn (Nat.lt_trans earlier less))
      · exact isValue
    rw [first.result_eq less, Option.some.injEq] at returned
    exact ⟨_, less, returned ▸ first⟩
  case mpr =>
    rintro ⟨k, less, ends⟩
    exact ends.result_eq less

/-! ### What a round does to the loop -/

/-- A sample after which `converge` measures again. -/
def GoesOn (limits : Limits Number) (sample : Sample Failure Number) : Prop :=
  ∃ metric, sample.metric = .ok metric ∧
    ¬ (limits.threshold ≤ metric ∧ limits.minTime ≤ sample.elapsed) ∧
      sample.elapsed ≤ limits.maxTime

/-- A sample that meets the threshold after the least time. -/
def Met (limits : Limits Number) (sample : Sample Failure Number) : Prop :=
  ∃ metric, sample.metric = .ok metric ∧ limits.threshold ≤ metric ∧
    limits.minTime ≤ sample.elapsed

/-- A sample that only ends `converge` because the time is over. -/
def Late (limits : Limits Number) (sample : Sample Failure Number) : Prop :=
  ∃ metric, sample.metric = .ok metric ∧
    ¬ (limits.threshold ≤ metric ∧ limits.minTime ≤ sample.elapsed) ∧
      limits.maxTime < sample.elapsed

theorem exit_eq_none_iff {sample : Sample Failure Number} :
    exit limits sample = none ↔ GoesOn limits sample := by
  unfold exit GoesOn
  cases sample.metric with
  | error failure => simp
  | ok metric =>
      by_cases met : limits.threshold ≤ metric ∧ limits.minTime ≤ sample.elapsed
      · simp [met]
      · simp [met, -not_and]

theorem verdict_eq_some_iff {sample : Sample Failure Number} {result : Except Failure Number} :
    verdict limits sample = some result ↔
      (∃ metric, result = .ok metric ∧ sample.metric = .ok metric ∧ Met limits sample) ∨
        (result = .ok 0.0 ∧ Late limits sample) ∨
          ∃ failure, result = .error failure ∧ sample.metric = .error failure := by
  unfold verdict Met Late
  cases sample.metric with
  | error failure => simp [eq_comm]
  | ok metric =>
      by_cases met : limits.threshold ≤ metric ∧ limits.minTime ≤ sample.elapsed
      · simp [met, eq_comm]
      · by_cases late : limits.maxTime < sample.elapsed
        · simp [met, late, eq_comm, -not_and]
        · simp [met, late, -not_and]

/-- What a test makes of the end of the loop. -/
theorem judge_eq_some_iff (judge : Except Failure Number → Except Failure Unit) {n : Nat}
    {result : Except Failure Unit} :
    (converge scale limits measure n).result.map judge = some result ↔
      ∃ k < n, (∀ j < k, GoesOn limits (sampleAt scale limits measure j)) ∧
        ((∃ metric, (sampleAt scale limits measure k).metric = .ok metric ∧
            Met limits (sampleAt scale limits measure k) ∧ result = judge (.ok metric)) ∨
          (Late limits (sampleAt scale limits measure k) ∧ result = judge (.ok 0.0)) ∨
          ∃ failure, (sampleAt scale limits measure k).metric = .error failure ∧
            result = judge (.error failure)) := by
  rw [Option.map_eq_some_iff]
  simp only [result_eq_some_iff, EndsAt, exit_eq_none_iff, verdict_eq_some_iff]
  constructor
  case mp =>
    rintro ⟨final, ⟨k, less, goesOn, ends⟩, rfl⟩
    refine ⟨k, less, goesOn, ?_⟩
    rcases ends with ⟨metric, rfl, answered, met⟩ | ⟨rfl, late⟩ | ⟨failure, rfl, failed⟩
    · exact .inl ⟨metric, answered, met, rfl⟩
    · exact .inr (.inl ⟨late, rfl⟩)
    · exact .inr (.inr ⟨failure, failed, rfl⟩)
  case mpr =>
    rintro ⟨k, less, goesOn, ends⟩
    rcases ends with ⟨metric, answered, met, rfl⟩ | ⟨late, rfl⟩ | ⟨failure, failed, rfl⟩
    · exact ⟨_, ⟨k, less, goesOn, .inl ⟨metric, rfl, answered, met⟩⟩, rfl⟩
    · exact ⟨_, ⟨k, less, goesOn, .inr (.inl ⟨rfl, late⟩)⟩, rfl⟩
    · exact ⟨_, ⟨k, less, goesOn, .inr (.inr ⟨failure, rfl, failed⟩)⟩, rfl⟩

theorem Met.threshold_le {sample : Sample Failure Number} {metric : Number}
    (met : Met limits sample) (answered : sample.metric = .ok metric) :
    limits.threshold ≤ metric := by
  obtain ⟨_, same, reached, _⟩ := met
  rw [answered, Except.ok.injEq] at same
  exact same ▸ reached

/-- The two ways to end the loop without the criterion. -/
theorem unmet_iff {sample : Sample Failure Number} :
    ¬ GoesOn limits sample ∧ ¬ Met limits sample ↔
      Late limits sample ∨ ∃ failure, sample.metric = .error failure := by
  unfold GoesOn Met Late
  cases sample.metric with
  | error failure => simp
  | ok metric =>
      by_cases met : limits.threshold ≤ metric ∧ limits.minTime ≤ sample.elapsed
      · simp [met]
      · simp [met, -not_and]

end Loop

/-! ## The tests that use the macro -/

section Asserting

variable {format : Number → String} {scale : Nat → Nat → Nat → Nat}
  {measure : Nat → Nat → Sample Failure Number}

/-- How such a test ends: it passes at the first round that meets the criterion, and
panics at a round before it that does not let the loop go on. -/
def AssertedEnds (scale : Nat → Nat → Nat → Nat) (measure : Nat → Nat → Sample Failure Number)
    (k : Nat) (result : Except Failure Unit) : Prop :=
  (∀ j < k, GoesOn topologyLimits (sampleAt scale topologyLimits measure j)) ∧
    ((Met topologyLimits (sampleAt scale topologyLimits measure k) ∧ result = .ok ()) ∨
      (¬ GoesOn topologyLimits (sampleAt scale topologyLimits measure k) ∧
        ¬ Met topologyLimits (sampleAt scale topologyLimits measure k) ∧
        result = .error .panicked))

/-- The error that follows the macro is never returned. -/
theorem asserting_eq_some_iff {n : Nat} {result : Except Failure Unit} :
    asserting format scale measure n = some result ↔
      ∃ k < n, AssertedEnds scale measure k result := by
  have passed : ∀ metric : Number, topologyLimits.threshold ≤ metric →
      (asserted 0.95 (.ok metric)).bind (atLeast format 0.95) = .ok () := by
    intro metric reached
    have asserts : asserted 0.95 (.ok metric) = .ok metric := if_pos reached
    rw [asserts]
    exact if_neg (Number.not_lt_of_le reached)
  have late : (asserted 0.95 (.ok 0.0)).bind (atLeast format 0.95) = .error .panicked := by
    have fails : asserted 0.95 (.ok 0.0) = .error .panicked := by decide +kernel
    rw [fails]
    rfl
  unfold asserting
  rw [judge_eq_some_iff fun final => (asserted 0.95 final).bind (atLeast format 0.95)]
  refine exists_congr fun k => and_congr_right fun _ => and_congr_right fun _ => ?_
  rw [late, ← and_assoc, unmet_iff, or_and_right]
  apply or_congr
  · constructor
    · rintro ⟨metric, answered, met, rfl⟩
      exact ⟨met, passed metric (met.threshold_le answered)⟩
    · rintro ⟨met, rfl⟩
      have ⟨metric, answered, reached, _⟩ := met
      exact ⟨metric, answered, met, (passed metric reached).symm⟩
  · have panics : ∀ failure, (asserted 0.95 (.error failure)).bind (atLeast format 0.95) =
        .error .panicked := fun _ => rfl
    simp only [panics, exists_and_right]

end Asserting

/-! ## The tests that read the time of the processes -/

section Waiting

/-- How a test ends whose rounds only wait and compare: at the first round that is good for
long enough, at the first one that takes too long, or with the error of a process. -/
def Ends (limits : Limits Number) (waited : Nat → Except String Unit) (good : Nat → Prop)
    (elapsed : Nat → Nat) (met : Nat → Except Failure Unit) (late : Except Failure Unit)
    (k : Nat) (result : Except Failure Unit) : Prop :=
  (∀ j < k, waited j = .ok () ∧ ¬ (good j ∧ limits.minTime ≤ elapsed j) ∧
      elapsed j ≤ limits.maxTime) ∧
    ((waited k = .ok () ∧ good k ∧ limits.minTime ≤ elapsed k ∧ result = met k) ∨
      (waited k = .ok () ∧ ¬ (good k ∧ limits.minTime ≤ elapsed k) ∧
        limits.maxTime < elapsed k ∧ result = late) ∨
      ∃ error, waited k = .error error ∧ result = .error (.failed error))

variable {scale : Nat → Nat → Nat → Nat} {limits : Limits Number}
  {measure : Nat → Nat → Sample Failure Number} {waited : Nat → Except String Unit}
  {value : Nat → Number} {good : Nat → Prop}

theorem waiting_eq_some_iff (judge : Number → Except Failure Unit)
    (metric : ∀ k, (sampleAt scale limits measure k).metric =
      ((waited k).mapError .failed).map fun _ => value k)
    (decides : ∀ k, limits.threshold ≤ value k ↔ good k) {n : Nat}
    {result : Except Failure Unit} :
    (converge scale limits measure n).result.map (fun final => final.bind judge) = some result ↔
      ∃ k < n, Ends limits waited good (fun k => (sampleAt scale limits measure k).elapsed)
        (fun k => judge (value k)) (judge 0.0) k result := by
  have goesOn : ∀ k, GoesOn limits (sampleAt scale limits measure k) ↔ waited k = .ok () ∧
      ¬ (good k ∧ limits.minTime ≤ (sampleAt scale limits measure k).elapsed) ∧
        (sampleAt scale limits measure k).elapsed ≤ limits.maxTime := by
    intro k
    rw [GoesOn, metric, ← decides]
    cases waited k with
    | error error => simp [Except.mapError, Except.map]
    | ok answer => simp [Except.mapError, Except.map]
  rw [judge_eq_some_iff fun final => final.bind judge]
  simp only [goesOn, Ends]
  refine exists_congr fun k => and_congr_right fun _ => and_congr_right fun _ => ?_
  simp only [Met, Late, metric, ← decides]
  cases waited k with
  | error error => simp [Except.mapError, Except.map, Except.bind]
  | ok answer => simp [Except.mapError, Except.map, Except.bind, and_assoc]

theorem Ends.congr {elapsed : Nat → Nat} {met met' : Nat → Except Failure Unit}
    {late : Except Failure Unit} {k : Nat} {result : Except Failure Unit}
    (same : good k → met k = met' k) :
    Ends limits waited good elapsed met late k result ↔
      Ends limits waited good elapsed met' late k result := by
  unfold Ends
  by_cases isGood : good k
  · rw [same isGood]
  · simp [isGood]

end Waiting

section Metrics

variable {D : Type} (tdigest : TDigest D)

/-- The estimated time that a tenth of the processes stay below. -/
def p10 (stats : List (Option Duration)) : F64 :=
  ((stats.reduceOption.foldl (Distribution.add tdigest)
    (Distribution.new tdigest)).valueAt tdigest (1 / 10)).asSecsF64

/-- The time of the processes, zero where it is not known. -/
def totalTime (stats : List (Option Duration)) : F64 :=
  (stats.map fun time => (time.map Duration.asSecsF64).getD 0).sum

/-- A tenth of the processes gets at least six tenths of the mean time. -/
def Fair (stats : List (Option Duration)) : Prop :=
  stats ≠ [] ∧ 0 < p10 tdigest stats ∧
    0.60 * (totalTime stats / stats.length) ≤ p10 tdigest stats

/-- The estimated latency of the samples that nine tenths stay below. -/
def p90 (samples : List Duration) : F64 :=
  (((Distribution.new tdigest).addAll tdigest samples).valueAt tdigest (9 / 10)).asSecsF64

/-- The fast semaphore takes at least half as long as the slow one. -/
def Unpreferred (fastSem slowSem : List Duration) : Prop :=
  0 < p90 tdigest fastSem ∧ 0.50 * p90 tdigest slowSem ≤ p90 tdigest fastSem

variable {tdigest} {debug : Duration → List Char} {terminal : Option Nat}

theorem draw_estimates (distribution : Distribution D Duration) :
    draw debug terminal (distribution.estimates tdigest) = .ok () := by
  obtain ⟨line, drawn⟩ := Option.isSome_iff_exists.mp
    (distribution.visualize_estimates tdigest debug none terminal)
  rw [draw, drawn]

theorem Duration.asSecsF64_nonneg (duration : Duration) : 0 ≤ duration.asSecsF64 := by
  unfold Duration.asSecsF64
  positivity

theorem totalTime_nonneg (stats : List (Option Duration)) : 0 ≤ totalTime stats := by
  apply List.sum_nonneg
  intro time has
  obtain ⟨read, _, rfl⟩ := List.mem_map.mp has
  cases read with
  | none => exact le_refl _
  | some duration => exact Duration.asSecsF64_nonneg duration

/-- The metric of `fairness` fails only with the processes. -/
theorem fairnessMetric_eq (waited : Except String Unit) (stats : List (Option Duration)) :
    fairnessMetric tdigest debug terminal waited stats = (waited.mapError .failed).map fun _ =>
      Number.divBy (p10 tdigest stats) (Number.ofDiv (totalTime stats) stats.length) := by
  have known : (1 / 10 : F64) ∈ standard := by simp [standard]
  cases waited with
  | error error => rfl
  | ok answer =>
      simp only [fairnessMetric, draw_estimates, Distribution.percentile_estimates known]
      simp [Except.mapError, Except.map, p10, totalTime]
      rfl

theorem le_fairnessMetric_iff (stats : List (Option Duration)) :
    (0.60 : Number) ≤ Number.divBy (p10 tdigest stats)
        (Number.ofDiv (totalTime stats) stats.length) ↔ Fair tdigest stats := by
  unfold Fair Number.ofDiv
  cases stats with
  | nil => exact iff_of_false id fun fair => fair.1 rfl
  | cons first rest =>
      have some : ((first :: rest).length : F64) ≠ 0 := by
        simp
        positivity
      have mean : 0 ≤ totalTime (first :: rest) / (first :: rest).length :=
        div_nonneg (totalTime_nonneg _) (Nat.cast_nonneg _)
      rw [if_pos some]
      have threshold : (0 : F64) < 0.60 := by norm_num
      have compared := Number.finite_le_ofDiv (Duration.asSecsF64_nonneg _) mean threshold
        (a := p10 tdigest (first :: rest))
      exact compared.trans (and_iff_right (List.cons_ne_nil first rest)).symm

/-- The metric of `adaptive_priority` fails only with the processes. -/
theorem adaptiveMetric_eq (waited : Except String Unit) (fastSem slowSem : List Duration) :
    adaptiveMetric tdigest debug terminal waited fastSem slowSem =
      (waited.mapError .failed).map fun _ =>
        Number.ofDiv (p90 tdigest fastSem) (p90 tdigest slowSem) := by
  have known : (9 / 10 : F64) ∈ standard := by simp [standard]
  cases waited with
  | error error => rfl
  | ok answer =>
      simp only [adaptiveMetric, draw_estimates, Distribution.percentile_estimates known]
      rfl

theorem le_adaptiveMetric_iff (fastSem slowSem : List Duration) :
    (0.50 : Number) ≤ Number.ofDiv (p90 tdigest fastSem) (p90 tdigest slowSem) ↔
      Unpreferred tdigest fastSem slowSem := by
  have threshold : (0 : F64) < 0.50 := by norm_num
  exact Number.finite_le_ofDiv (Duration.asSecsF64_nonneg _) (Duration.asSecsF64_nonneg _) threshold

end Metrics

/-! ## The verdicts -/

section Verdicts

variable {D : Type} (tdigest : TDigest D) (debug : Duration → List Char) (terminal : Option Nat)
  (format : Number → String) (scale : Nat → Nat → Nat → Nat)

/-- The answers of a round of `fairness`, with the iterations that it is called with. -/
def fairnessAt (rounds : Nat → Nat → FairnessRound) (k : Nat) : FairnessRound :=
  rounds k (itersAt scale fairnessLimits (fairnessSamples tdigest debug terminal rounds) k)

/-- The `k`-th round of `adaptive_priority`. -/
def adaptiveAt (rounds : Nat → Nat → AdaptiveRound) (k : Nat) : AdaptiveRound :=
  rounds k (itersAt scale adaptiveLimits (adaptiveSamples tdigest debug terminal rounds) k)

theorem fairness_eq_some_iff (rounds : Nat → Nat → FairnessRound) {n : Nat}
    {result : Except Failure Unit} :
    let round := fairnessAt tdigest debug terminal scale rounds
    fairness format tdigest debug terminal scale rounds n = some result ↔ ∃ k < n,
      Ends fairnessLimits (fun k => (round k).waited) (fun k => Fair tdigest (round k).stats)
        (fun k => (round k).elapsed) (fun _ => .ok ()) (.error (missed format 0.0 0.60)) k
        result := by
  have late : atLeast format 0.60 0.0 = .error (missed format 0.0 0.60) :=
    if_pos (by decide +kernel)
  intro round
  have metric : ∀ k, (sampleAt scale fairnessLimits
      (fairnessSamples tdigest debug terminal rounds) k).metric =
        ((round k).waited.mapError .failed).map fun _ => Number.divBy (p10 tdigest (round k).stats)
          (Number.ofDiv (totalTime (round k).stats) (round k).stats.length) :=
    fun k => fairnessMetric_eq _ _
  apply (waiting_eq_some_iff (atLeast format 0.60) metric fun k => le_fairnessMetric_iff _).trans
  rw [late]
  refine exists_congr fun k => and_congr_right fun _ => Ends.congr fun fair => ?_
  exact if_neg (Number.not_lt_of_le ((le_fairnessMetric_iff _).mpr fair))

theorem adaptivePriority_eq_some_iff (rounds : Nat → Nat → AdaptiveRound) {n : Nat}
    {result : Except Failure Unit} :
    let round := adaptiveAt tdigest debug terminal scale rounds
    adaptivePriority format tdigest debug terminal scale rounds n = some result ↔ ∃ k < n,
      Ends adaptiveLimits (fun k => (round k).waited)
        (fun k => Unpreferred tdigest (round k).fastSem (round k).slowSem)
        (fun k => (round k).elapsed)
        (fun k => .error (missed format
          (Number.ofDiv (p90 tdigest (round k).fastSem) (p90 tdigest (round k).slowSem)) 0.50))
        (.ok ()) k result := by
  have late : below format 0.50 0.0 = .ok () := if_neg (by decide +kernel)
  intro round
  have metric : ∀ k, (sampleAt scale adaptiveLimits
      (adaptiveSamples tdigest debug terminal rounds) k).metric =
        ((round k).waited.mapError .failed).map fun _ =>
          Number.ofDiv (p90 tdigest (round k).fastSem) (p90 tdigest (round k).slowSem) :=
    fun k => adaptiveMetric_eq _ _ _
  apply (waiting_eq_some_iff (below format 0.50) metric fun k => le_adaptiveMetric_iff _ _).trans
  rw [late]
  refine exists_congr fun k => and_congr_right fun _ => Ends.congr fun unpreferred => ?_
  exact if_pos ((le_adaptiveMetric_iff _ _).mpr unpreferred)

theorem spreadOut_eq_some_iff (system : System) (rounds : Nat → Nat → SpreadOutRound) {n : Nat}
    {result : Except Failure Unit} :
    spreadOut format scale system rounds n = some result ↔
      (system.cores = [] ∧ result = .error .panicked) ∨
        (system.cores ≠ [] ∧
          ∃ k < n, AssertedEnds scale (spreadOutSamples system rounds) k result) := by
  unfold spreadOut
  by_cases empty : system.cores = []
  · simp [empty, eq_comm]
  · simp [empty, asserting_eq_some_iff]

/-- `fairness` passes at the first round of five seconds that is fair, and fails at a round
before it that takes over ten.  `adaptive_priority` fails at the first round of five seconds
in which the fast semaphore is not preferred, and passes only when the time is over.
`spread_out` and `come_together` pass at the first round of one second that meets their
target, and panic otherwise. -/
theorem tests_judge (system : System) (n : Nat) (result : Except Failure Unit) :
    (∀ rounds : Nat → Nat → FairnessRound,
      let round := fairnessAt tdigest debug terminal scale rounds
      fairness format tdigest debug terminal scale rounds n = some result ↔ ∃ k < n,
        Ends fairnessLimits (fun k => (round k).waited) (fun k => Fair tdigest (round k).stats)
          (fun k => (round k).elapsed) (fun _ => .ok ()) (.error (missed format 0.0 0.60)) k
          result) ∧
    (∀ rounds : Nat → Nat → AdaptiveRound,
      let round := adaptiveAt tdigest debug terminal scale rounds
      adaptivePriority format tdigest debug terminal scale rounds n = some result ↔ ∃ k < n,
        Ends adaptiveLimits (fun k => (round k).waited)
          (fun k => Unpreferred tdigest (round k).fastSem (round k).slowSem)
          (fun k => (round k).elapsed)
          (fun k => .error (missed format
            (Number.ofDiv (p90 tdigest (round k).fastSem) (p90 tdigest (round k).slowSem)) 0.50))
          (.ok ()) k result) ∧
    (∀ rounds : Nat → Nat → SpreadOutRound,
      spreadOut format scale system rounds n = some result ↔
        (system.cores = [] ∧ result = .error .panicked) ∨
          (system.cores ≠ [] ∧
            ∃ k < n, AssertedEnds scale (spreadOutSamples system rounds) k result)) ∧
    (∀ rounds : Nat → Nat → ComeTogetherRound,
      comeTogether format scale system rounds n = some result ↔
        ∃ k < n, AssertedEnds scale (comeTogetherSamples system rounds) k result) :=
  ⟨fun rounds => fairness_eq_some_iff tdigest debug terminal format scale rounds,
    fun rounds => adaptivePriority_eq_some_iff tdigest debug terminal format scale rounds,
    fun rounds => spreadOut_eq_some_iff format scale system rounds,
    fun _ => asserting_eq_some_iff⟩

end Verdicts

end Schtest.Cases
