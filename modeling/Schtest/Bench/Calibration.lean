import Schtest.Bench.Converge
import Mathlib.Algebra.Order.Floor.Semiring
import Mathlib.Data.Rat.Floor

/-!
# The calibration of the iteration count

With the estimate computed exactly, the count grows with every call that leaves
time, never by more than a factor of a hundred.  A measurement whose calls take
a fixed time for each iteration reaches the minimum time, and the first call that
does exceeds it by less than one iteration.
-/

namespace Schtest.Bench

universe u v

/-! ## The estimate -/

/-- A rounded quotient is the least factor that covers the dividend. -/
theorem roundedDiv_le_iff {dividend divisor bound : Nat} (positive : 0 < divisor) :
    (dividend + divisor - 1) / divisor ≤ bound ↔ dividend ≤ bound * divisor := by
  have product : bound.succ * divisor = bound * divisor + divisor := Nat.succ_mul _ _
  rw [← Nat.lt_succ_iff, Nat.div_lt_iff_lt_mul positive]
  omega

/-- The exact estimate is the ceiling of the quotient, cast to a `u32`. -/
theorem exactScale_eq_ceil {iters minTime elapsed : Nat} (positive : 0 < elapsed) :
    exactScale iters minTime elapsed =
      min ⌈(iters : ℚ) * minTime / elapsed⌉₊ U32_MAX := by
  have divisor : (0 : ℚ) < elapsed := by exact_mod_cast positive
  have ceiling :
      (iters * minTime + elapsed - 1) / elapsed = ⌈(iters : ℚ) * minTime / elapsed⌉₊ := by
    apply eq_of_forall_ge_iff
    intro bound
    rw [roundedDiv_le_iff positive, Nat.ceil_le, div_le_iff₀ divisor]
    exact_mod_cast Iff.rfl
  rw [exactScale, ceiling]

/-- The estimate where every iteration takes the same time. -/
theorem exactScale_mul {iters minTime rate : Nat} (positive : 0 < iters) (rated : 0 < rate) :
    exactScale iters minTime (rate * iters) = min ((minTime + rate - 1) / rate) U32_MAX := by
  have quotient : (iters * minTime + rate * iters - 1) / (rate * iters) =
      (minTime + rate - 1) / rate := by
    apply eq_of_forall_ge_iff
    intro bound
    rw [roundedDiv_le_iff (Nat.mul_pos rated positive), roundedDiv_le_iff rated,
      ← Nat.mul_assoc, Nat.mul_comm iters, Nat.mul_le_mul_right_iff positive]
  rw [exactScale, quotient]

/-! ## One step -/

variable {E : Type v} {F : Type u} [OfScientific F] [LE F] [DecidableLE F]

section Step

variable (scale : Nat → Nat → Nat → Nat) (limits : Limits F) {iters : Nat} (elapsed : Nat)

omit [OfScientific F] [LE F] [DecidableLE F] in
/-- The count grows at most by a factor of a hundred. -/
theorem nextIters_le (positive : 1 ≤ iters) :
    nextIters scale limits iters elapsed ≤ 100 * iters := by
  have product (b : Nat) (small : b ≤ 100) : saturatingMul iters b ≤ 100 * iters := by
    calc
      saturatingMul iters b ≤ iters * b := Nat.min_le_left _ _
      _ ≤ iters * 100 := Nat.mul_le_mul_left _ small
      _ = 100 * iters := Nat.mul_comm _ _
  unfold nextIters
  split
  · split
    · exact product 100 (le_refl _)
    · exact (Nat.min_le_right _ _).trans (product 100 (le_refl _))
  · split
    · exact product 2 (by decide)
    · omega

omit [OfScientific F] [LE F] [DecidableLE F] in
/-- While there is time and room, the count grows. -/
theorem lt_nextIters (positive : 1 ≤ iters) (time : elapsed < limits.maxTime)
    (room : iters < U32_MAX / 2) : iters < nextIters scale limits iters elapsed := by
  have product (b : Nat) (more : 2 ≤ b) : iters < saturatingMul iters b := by
    apply Nat.lt_min.mpr
    constructor
    · calc
        iters < iters * 2 := by omega
        _ ≤ iters * b := Nat.mul_le_mul_left _ more
    · omega
  unfold nextIters
  split
  · split
    · exact product 100 (by decide)
    · apply Nat.lt_min.mpr
      constructor
      · exact (Nat.lt_succ_self iters).trans_le (Nat.le_max_right _ _)
      · exact product 100 (by decide)
  · rw [if_pos ⟨time, room⟩]
    exact product 2 (le_refl _)

omit [OfScientific F] [LE F] [DecidableLE F] in
/-- Where every iteration takes the same time, the next call exceeds the minimum time by
less than one iteration. -/
theorem nextIters_mul_lt {rate : Nat} (rated : 0 < rate) (positive : 1 ≤ iters)
    (short : rate * iters < limits.minTime) (room : iters < U32_MAX / 2) :
    rate * nextIters exactScale limits iters (rate * iters) < limits.minTime + rate := by
  have some : rate * iters ≠ 0 := (Nat.mul_pos rated positive).ne'
  have enough : iters < (limits.minTime + rate - 1) / rate := by
    by_contra few
    have covers := (roundedDiv_le_iff rated).mp (not_lt.mp few)
    rw [Nat.mul_comm] at covers
    omega
  have bounded : nextIters exactScale limits iters (rate * iters) ≤
      (limits.minTime + rate - 1) / rate := by
    rw [nextIters, if_pos ⟨short, room⟩, if_neg some, exactScale_mul positive rated]
    apply (Nat.min_le_left _ _).trans
    exact Nat.max_le.mpr ⟨min_le_left _ _, enough⟩
  calc
    rate * nextIters exactScale limits iters (rate * iters) ≤
        rate * ((limits.minTime + rate - 1) / rate) := Nat.mul_le_mul_left _ bounded
    _ ≤ limits.minTime + rate - 1 := Nat.mul_div_le _ _
    _ < limits.minTime + rate := by omega

end Step

/-! ## Runs -/

section Run

variable (limits : Limits F) (measure : Nat → Nat → Sample E F)

/-- The loop makes one more call after `n` calls. -/
def Calls (n : Nat) : Prop :=
  (converge exactScale limits measure n).result = none

/-- The count that is passed to the call after `n` calls. -/
def calledWith (n : Nat) : Nat :=
  (converge exactScale limits measure n).iters

/-- What the call after `n` calls takes. -/
def takes (n : Nat) : Nat :=
  (measure n (calledWith limits measure n)).elapsed

variable {limits measure}

theorem Calls.calledWith_eq {n : Nat} (calls : Calls limits measure n) :
    calledWith limits measure n = itersAt exactScale limits measure n := by
  have goesOn := (converge_result_eq_none_iff exactScale limits measure n).mp calls
  rw [calledWith, converge_eq_of_forall exactScale limits measure goesOn]

theorem Calls.of_succ {n : Nat} (calls : Calls limits measure (n + 1)) :
    Calls limits measure n := by
  have goesOn := (converge_result_eq_none_iff exactScale limits measure (n + 1)).mp calls
  apply (converge_result_eq_none_iff exactScale limits measure n).mpr
  exact fun k less => goesOn k (Nat.lt_succ_of_lt less)

theorem Calls.calledWith_succ {n : Nat} (calls : Calls limits measure (n + 1)) :
    calledWith limits measure (n + 1) =
      nextIters exactScale limits (calledWith limits measure n) (takes limits measure n) := by
  rw [calls.calledWith_eq, takes, calls.of_succ.calledWith_eq]
  rfl

theorem Calls.bounds {n : Nat} (calls : Calls limits measure n) :
    1 ≤ calledWith limits measure n ∧ calledWith limits measure n ≤ U32_MAX := by
  rw [calls.calledWith_eq]
  exact itersAt_bounds exactScale limits measure n

/-- A call that does not last for the minimum time does not end the loop. -/
theorem Calls.succ_of_lt {n : Nat} (ordered : limits.minTime ≤ limits.maxTime)
    (noError : ∀ n iters, ∃ metric, (measure n iters).metric = .ok metric)
    (calls : Calls limits measure n) (short : takes limits measure n < limits.minTime) :
    Calls limits measure (n + 1) := by
  have goesOn := (converge_result_eq_none_iff exactScale limits measure n).mp calls
  apply (converge_result_eq_none_iff exactScale limits measure (n + 1)).mpr
  intro k less
  rcases Nat.lt_succ_iff_lt_or_eq.mp less with earlier | rfl
  · exact goesOn k earlier
  · obtain ⟨metric, returned⟩ := noError k (itersAt exactScale limits measure k)
    have lasts : (sampleAt exactScale limits measure k).elapsed < limits.minTime := by
      rw [takes, calls.calledWith_eq] at short
      exact short
    have inTime := lasts.trans_le ordered
    rw [verdict, sampleAt, returned]
    simp only [sampleAt] at lasts inTime
    simp [not_le.mpr lasts, not_lt.mpr inTime.le]

/-- The counts that are passed to the calls of a run. -/
structure Calibrated (limits : Limits F) (measure : Nat → Nat → Sample E F) : Prop where
  bounds : ∀ n, Calls limits measure n →
    1 ≤ calledWith limits measure n ∧ calledWith limits measure n ≤ U32_MAX
  /-- Before the estimate is compared with it, one is added to the count. -/
  fits : ∀ n, Calls limits measure n → takes limits measure n < limits.minTime →
    calledWith limits measure n < U32_MAX / 2 → calledWith limits measure n + 1 ≤ U32_MAX
  grows : ∀ n, Calls limits measure (n + 1) →
    calledWith limits measure (n + 1) ≤ 100 * calledWith limits measure n
  strict : ∀ n, Calls limits measure (n + 1) → takes limits measure n < limits.maxTime →
    calledWith limits measure n < U32_MAX / 2 →
      calledWith limits measure n < calledWith limits measure (n + 1)

theorem calibrated (limits : Limits F) (measure : Nat → Nat → Sample E F) :
    Calibrated limits measure := by
  constructor
  case bounds => exact fun n calls => calls.bounds
  case fits =>
    intro n calls _ room
    omega
  case grows =>
    intro n calls
    rw [calls.calledWith_succ]
    exact nextIters_le _ _ _ calls.of_succ.bounds.1
  case strict =>
    intro n calls time room
    rw [calls.calledWith_succ]
    exact lt_nextIters _ _ _ calls.of_succ.bounds.1 time room

/-- The first call that lasts for the minimum time, and by how much it exceeds it. -/
def Reaches (limits : Limits F) (measure : Nat → Nat → Sample E F) (rate : Nat) : Prop :=
  ∃ n, Calls limits measure n ∧ (∀ k < n, takes limits measure k < limits.minTime) ∧
    limits.minTime ≤ takes limits measure n ∧ takes limits measure n < limits.minTime + rate

section Rated

variable {rate : Nat} (rated : 1 ≤ rate) (ordered : limits.minTime ≤ limits.maxTime)
  (noError : ∀ n iters, ∃ metric, (measure n iters).metric = .ok metric)
  (fixed : ∀ n iters, (measure n iters).elapsed = rate * iters)
  (room : limits.minTime / rate < U32_MAX / 2)
include rated fixed room

/-- A call that is too short leaves room for more iterations. -/
theorem calledWith_lt_of_lt {n : Nat} (short : takes limits measure n < limits.minTime) :
    calledWith limits measure n < U32_MAX / 2 := by
  rw [takes, fixed] at short
  apply lt_of_le_of_lt _ room
  rw [Nat.le_div_iff_mul_le rated, Nat.mul_comm]
  exact short.le

include ordered noError

/-- As long as no call lasts for the minimum time, the counts grow by one at least. -/
theorem calls_of_forall_lt {n : Nat}
    (short : ∀ k < n, takes limits measure k < limits.minTime) :
    Calls limits measure n ∧ n < calledWith limits measure n := by
  induction n with
  | zero =>
      constructor
      · rfl
      · exact Nat.zero_lt_one
  | succ n inductionHypothesis =>
      obtain ⟨calls, more⟩ := inductionHypothesis fun k less => short k (Nat.lt_succ_of_lt less)
      have last := short n (Nat.lt_succ_self n)
      have next := calls.succ_of_lt ordered noError last
      have small := calledWith_lt_of_lt rated fixed room last
      have grown := (calibrated limits measure).strict n next (last.trans_le ordered) small
      constructor
      · exact next
      · omega

/-- The minimum time is reached. -/
theorem exists_minTime_le : ∃ n, limits.minTime ≤ takes limits measure n := by
  by_contra never
  have short : ∀ n, takes limits measure n < limits.minTime :=
    fun n => not_le.mp fun reached => never ⟨n, reached⟩
  obtain ⟨_, more⟩ := calls_of_forall_lt rated ordered noError fixed room
    fun k (_ : k < limits.minTime) => short k
  have last := short limits.minTime
  rw [takes, fixed] at last
  have product : calledWith limits measure limits.minTime ≤
      rate * calledWith limits measure limits.minTime := Nat.le_mul_of_pos_left _ rated
  omega

theorem reaches (positive : 0 < limits.minTime) : Reaches limits measure rate := by
  have ended := exists_minTime_le rated ordered noError fixed room
  have earlier : ∀ k < Nat.find ended, takes limits measure k < limits.minTime :=
    fun k less => not_le.mp (Nat.find_min ended less)
  have calls := (calls_of_forall_lt rated ordered noError fixed room earlier).1
  constructor
  constructor
  · exact calls
  constructor
  · exact earlier
  constructor
  · exact Nat.find_spec ended
  · cases first : Nat.find ended with
    | zero =>
        have first : calledWith limits measure 0 = 1 := rfl
        rw [takes, fixed, first]
        omega
    | succ n =>
        rw [first] at calls earlier
        have short := earlier n (Nat.lt_succ_self n)
        have small := calledWith_lt_of_lt rated fixed room short
        rw [takes, fixed] at short
        rw [takes, fixed, calls.calledWith_succ, takes, fixed]
        exact nextIters_mul_lt limits rated calls.of_succ.bounds.1 short small

end Rated

/-- The calibration is sound. -/
theorem calibration_sound (limits : Limits F) (measure : Nat → Nat → Sample E F)
    (positive : 0 < limits.minTime) (ordered : limits.minTime ≤ limits.maxTime)
    (noError : ∀ n iters, ∃ metric, (measure n iters).metric = .ok metric) :
    Calibrated limits measure ∧
      ∀ rate, 1 ≤ rate → limits.minTime / rate < U32_MAX / 2 →
        (∀ n iters, (measure n iters).elapsed = rate * iters) → Reaches limits measure rate := by
  constructor
  · exact calibrated limits measure
  · intro rate rated room fixed
    exact reaches rated ordered noError fixed room positive

/-- A measurement that takes three nanoseconds for each iteration. -/
def threeEach : Nat → Nat → Sample Empty ℚ :=
  fun _ iters => ⟨.ok 0, 3 * iters⟩

theorem calibration_sound_threeEach :
    Calibrated ⟨10, 100, 1⟩ threeEach ∧ Reaches ⟨10, 100, 1⟩ threeEach 3 := by
  have sound := calibration_sound ⟨10, 100, 1⟩ threeEach (by decide) (by decide)
    fun _ _ => ⟨0, rfl⟩
  exact ⟨sound.1, sound.2 3 (by decide) (by decide) fun _ _ => rfl⟩

end Run

end Schtest.Bench
