import Schtest.Numeric.Interpolation
import Mathlib.Algebra.Order.Floor.Semiring
import Mathlib.Algebra.Order.Group.Pointwise.Interval
import Mathlib.Data.Rat.Floor

/-!
# Estimates

The quantiles of a distribution as percentiles with their values, and the value
at an arbitrary percentile.  Floating point numbers are read as exact rationals,
and the conversions between them and the values are those that `to_f64` and
`percentile` choose by the type of the values.
-/

namespace Schtest.Stats

open Schtest.Numeric

/-- `f64`, read as an exact rational. -/
abbrev F64 := ℚ

/-- `f64::EPSILON`. -/
def EPSILON : F64 :=
  1 / 2 ^ 52

theorem EPSILON_pos : 0 < EPSILON := by
  unfold EPSILON
  positivity

/-! ## Values -/

/-- `DistributionValue`, with the conversions to and from `f64` seconds or numbers. -/
class DistributionValue (T : Type) extends LinearOrder T where
  toF64 : T → F64
  ofF64 : F64 → T
  /-- The values that a `u64` holds. -/
  Fits : T → Prop
  toF64_mono : ∀ {v w : T}, v ≤ w → toF64 v ≤ toF64 w
  ofF64_mono : ∀ {x y : F64}, x ≤ y → ofF64 x ≤ ofF64 y
  ofF64_toF64 : ∀ {v : T}, Fits v → ofF64 (toF64 v) = v

open DistributionValue (toF64 ofF64 Fits)

/-- A `Duration` in nanoseconds. -/
structure Duration where
  nanos : Nat
  deriving DecidableEq, Repr

namespace Duration

theorem nanos_injective : Function.Injective nanos := by
  rintro ⟨first⟩ ⟨second⟩ rfl
  rfl

instance : LinearOrder Duration :=
  LinearOrder.lift' nanos nanos_injective

theorem le_iff {first second : Duration} : first ≤ second ↔ first.nanos ≤ second.nanos :=
  Iff.rfl

/-- `Duration::as_secs_f64`, without rounding. -/
def asSecsF64 (duration : Duration) : F64 :=
  duration.nanos / 1000000000

/-- `Duration::from_nanos((seconds * 1_000_000_000.0) as u64)`; the cast saturates. -/
def ofSecsF64 (seconds : F64) : Duration :=
  ⟨min ⌊seconds * 1000000000⌋₊ (2 ^ 64 - 1)⟩

theorem asSecsF64_mono {first second : Duration} (ordered : first ≤ second) :
    first.asSecsF64 ≤ second.asSecsF64 := by
  have nanos : (first.nanos : F64) ≤ second.nanos := by exact_mod_cast ordered
  unfold asSecsF64
  gcongr

theorem ofSecsF64_mono {first second : F64} (ordered : first ≤ second) :
    ofSecsF64 first ≤ ofSecsF64 second := by
  apply le_iff.mpr
  apply min_le_min_right
  apply Nat.floor_mono
  gcongr

theorem ofSecsF64_asSecsF64 {duration : Duration} (small : duration.nanos < 2 ^ 64) :
    ofSecsF64 duration.asSecsF64 = duration := by
  have exact : duration.asSecsF64 * 1000000000 = duration.nanos := by
    unfold asSecsF64
    ring
  have kept : min duration.nanos (2 ^ 64 - 1) = duration.nanos := by omega
  rw [ofSecsF64, exact, Nat.floor_natCast, kept]

instance : DistributionValue Duration where
  toF64 := asSecsF64
  ofF64 := ofSecsF64
  Fits duration := duration.nanos < 2 ^ 64
  toF64_mono := asSecsF64_mono
  ofF64_mono := ofSecsF64_mono
  ofF64_toF64 := ofSecsF64_asSecsF64

end Duration

/-- Numbers keep their bits. -/
instance : DistributionValue F64 where
  toF64 value := value
  ofF64 value := value
  Fits _ := True
  toF64_mono ordered := ordered
  ofF64_mono ordered := ordered
  ofF64_toF64 _ := rfl

/-! ## Percentiles -/

/-- `Estimates`: the percentiles with their values. -/
structure Estimates (T : Type) where
  quantiles : List (F64 × T)

namespace Estimates

variable {T : Type} [DistributionValue T]

/-- The value between two quantiles. -/
def interpolated (left right : F64 × T) (percentile : F64) : T :=
  let factor := (percentile - left.1) / (right.1 - left.1)
  ofF64 (toF64 left.2 + (toF64 right.2 - toF64 left.2) * factor)

/-- `quantiles.iter().find(|(p, _)| (*p - percentile).abs() < f64::EPSILON)`. -/
def exactMatch (estimates : Estimates T) (percentile : F64) : Option (F64 × T) :=
  estimates.quantiles.find? fun q => |q.1 - percentile| < EPSILON

/-- `Estimates::percentile`: an exact match, or an interpolation. -/
def percentile (estimates : Estimates T) (percentile : F64) : Option T :=
  match estimates.exactMatch percentile with
  | some q => some q.2
  | none => interpolate interpolated estimates.quantiles percentile

/-- The percentiles increase by at least `f64::EPSILON`, the values do not decrease, and each
value is one that a `u64` holds. -/
structure Spaced (estimates : Estimates T) : Prop where
  nonempty : estimates.quantiles ≠ []
  spaced : estimates.quantiles.Pairwise fun left right =>
    left.1 + EPSILON ≤ right.1 ∧ left.2 ≤ right.2
  fits : ∀ q ∈ estimates.quantiles, Fits q.2

namespace Spaced

variable {estimates : Estimates T}

theorem increasing (spaced : estimates.Spaced) : Increasing estimates.quantiles := by
  apply spaced.spaced.imp
  rintro left right ⟨apart, values⟩
  constructor
  · exact (lt_add_of_pos_right _ EPSILON_pos).trans_le apart
  · exact values

theorem apart (spaced : estimates.Spaced) {left right : F64 × T}
    (hasLeft : left ∈ estimates.quantiles) (hasRight : right ∈ estimates.quantiles)
    (ordered : left.1 < right.1) : left.1 + EPSILON ≤ right.1 := by
  have positions : ∀ left right : F64 × T, left.1 + EPSILON ≤ right.1 ∧ left.2 ≤ right.2 →
      left.1 < right.1 :=
    fun _ _ both => (lt_add_of_pos_right _ EPSILON_pos).trans_le both.1
  rcases related_of_le spaced.spaced positions hasLeft hasRight ordered.le with rfl | both
  · exact absurd ordered (lt_irrefl _)
  · exact both.1

/-- Interpolation between two values and back stays between them and does not fall. -/
theorem rising (spaced : estimates.Spaced) : Rising interpolated estimates.quantiles := by
  have line : ∀ (left right : F64 × T) (x : F64), interpolated left right x =
      ofF64 (lerp (left.1, toF64 left.2) (right.1, toF64 right.2) x) := by
    intro left right x
    simp only [interpolated, lerp, mul_div_assoc]
  have straight := rising_lerp (estimates.quantiles.map fun q => (q.1, toF64 q.2))
  have member : ∀ q ∈ estimates.quantiles,
      (q.1, toF64 q.2) ∈ estimates.quantiles.map fun q => (q.1, toF64 q.2) :=
    fun q has => List.mem_map.mpr ⟨q, has, rfl⟩
  constructor
  case le_line =>
    intro left hasLeft right hasRight x ordered values after
    rw [line]
    calc
      left.2 = ofF64 (toF64 left.2) := (DistributionValue.ofF64_toF64 (spaced.fits _ hasLeft)).symm
      _ ≤ _ := DistributionValue.ofF64_mono (straight.le_line _ (member _ hasLeft) _
        (member _ hasRight) x ordered (DistributionValue.toF64_mono values) after)
  case line_le =>
    intro left hasLeft right hasRight x ordered values before
    rw [line]
    calc
      _ ≤ ofF64 (toF64 right.2) := DistributionValue.ofF64_mono (straight.line_le _
        (member _ hasLeft) _ (member _ hasRight) x ordered
        (DistributionValue.toF64_mono values) before)
      _ = right.2 := DistributionValue.ofF64_toF64 (spaced.fits _ hasRight)
  case mono =>
    intro left hasLeft right hasRight x y ordered values before
    rw [line, line]
    exact DistributionValue.ofF64_mono (straight.mono _ (member _ hasLeft) _
      (member _ hasRight) x y ordered (DistributionValue.toF64_mono values) before)

/-- The exact match is the first of the quantiles that are near. -/
theorem exactMatch_least (spaced : estimates.Spaced) {x : F64} {q : F64 × T}
    (matched : estimates.exactMatch x = some q) :
    q ∈ estimates.quantiles ∧ |q.1 - x| < EPSILON ∧
      ∀ node ∈ estimates.quantiles, |node.1 - x| < EPSILON → q.1 ≤ node.1 := by
  obtain ⟨near, before, after, split, notNear⟩ := List.find?_eq_some_iff_append.mp matched
  have member : q ∈ estimates.quantiles := by
    rw [split]
    exact List.mem_append_right _ List.mem_cons_self
  constructor
  · exact member
  constructor
  · simpa using near
  · intro node has nodeNear
    rw [split] at has
    have increasing := spaced.increasing
    rw [split] at increasing
    rcases List.mem_append.mp has with earlier | later
    · have different := notNear node earlier
      simp [nodeNear] at different
    · rcases List.mem_cons.mp later with rfl | later
      · exact le_refl _
      · have ordered := (List.pairwise_append.mp increasing).2.1
        exact ((List.pairwise_cons.mp ordered).1 node later).1.le

omit [DistributionValue T] in
theorem far_of_exactMatch {x : F64} (noMatch : estimates.exactMatch x = none)
    {node : F64 × T} (member : node ∈ estimates.quantiles) : EPSILON ≤ |node.1 - x| := by
  have far := List.find?_eq_none.mp noMatch node member
  simpa using far

/-- Among the quantiles from the percentile on, the match is the first. -/
theorem exactMatch_le (spaced : estimates.Spaced) {x : F64} {q node : F64 × T}
    (matched : estimates.exactMatch x = some q) (member : node ∈ estimates.quantiles)
    (after : x ≤ node.1) : q.1 ≤ node.1 := by
  obtain ⟨_, near, least⟩ := spaced.exactMatch_least matched
  by_contra earlier
  -- A node between the percentile and its match would match as well.
  have between : node.1 ∈ Set.uIcc x q.1 := Set.mem_uIcc_of_le after (not_le.mp earlier).le
  exact earlier (least node member ((Set.abs_sub_left_of_mem_uIcc between).trans_lt near))

/-- The two ways in which a percentile gets its value. -/
theorem percentile_cases (spaced : estimates.Spaced) (x : F64) :
    (∃ q, estimates.exactMatch x = some q ∧ estimates.percentile x = some q.2) ∨
      (estimates.exactMatch x = none ∧ ∃ found, locate estimates.quantiles x = some found ∧
        Encloses estimates.quantiles x found ∧
          estimates.percentile x = some (found.value interpolated x)) := by
  cases matched : estimates.exactMatch x with
  | some q =>
      left
      exact ⟨q, rfl, by rw [percentile, matched]⟩
  | none =>
      right
      obtain ⟨found, located, encloses⟩ := spaced.increasing.locate_eq spaced.nonempty x
      have value : estimates.percentile x = some (found.value interpolated x) := by
        rw [percentile, matched]
        simp only [interpolate, located, Option.map_some]
      exact ⟨rfl, found, located, encloses, value⟩

/-- Inversion of `percentile`. -/
theorem percentile_eq_some (spaced : estimates.Spaced) {x : F64} {v : T}
    (value : estimates.percentile x = some v) :
    (∃ q, estimates.exactMatch x = some q ∧ v = q.2) ∨
      (estimates.exactMatch x = none ∧ ∃ found, locate estimates.quantiles x = some found ∧
        Encloses estimates.quantiles x found ∧ v = found.value interpolated x) := by
  rcases spaced.percentile_cases x with
    ⟨q, matched, result⟩ | ⟨noMatch, found, located, encloses, result⟩
  · rw [result, Option.some.injEq] at value
    exact .inl ⟨q, matched, value.symm⟩
  · rw [result, Option.some.injEq] at value
    exact .inr ⟨noMatch, found, located, encloses, value.symm⟩

omit [DistributionValue T] in
/-- A percentile without a match is not a stored one. -/
theorem ne_of_exactMatch {x : F64} (noMatch : estimates.exactMatch x = none)
    {node : F64 × T} (member : node ∈ estimates.quantiles) : node.1 ≠ x := by
  rintro rfl
  have far := far_of_exactMatch noMatch member
  rw [sub_self, abs_zero] at far
  exact absurd EPSILON_pos (not_lt.mpr far)

/-- From a stored percentile on the value is at least the stored one. -/
theorem le_percentile (spaced : estimates.Spaced) {node : F64 × T}
    (member : node ∈ estimates.quantiles) {x : F64} {v : T} (before : node.1 ≤ x)
    (value : estimates.percentile x = some v) : node.2 ≤ v := by
  rcases spaced.percentile_eq_some value with ⟨q, matched, rfl⟩ | ⟨noMatch, found, _, encloses, rfl⟩
  · obtain ⟨has, near, _⟩ := spaced.exactMatch_least matched
    apply spaced.increasing.value_le member has
    -- A match before the node would be too far from it.
    by_contra later
    have apart := spaced.apart has member (not_le.mp later)
    have close := (abs_lt.mp near).1
    linarith
  · exact spaced.rising.le_value spaced.increasing encloses member before
      (ne_of_exactMatch noMatch member)

/-- Up to a stored percentile the value is at most the stored one. -/
theorem percentile_le (spaced : estimates.Spaced) {node : F64 × T}
    (member : node ∈ estimates.quantiles) {x : F64} {v : T} (after : x ≤ node.1)
    (value : estimates.percentile x = some v) : v ≤ node.2 := by
  rcases spaced.percentile_eq_some value with ⟨q, matched, rfl⟩ | ⟨noMatch, found, _, encloses, rfl⟩
  · have has := (spaced.exactMatch_least matched).1
    exact spaced.increasing.value_le has member (spaced.exactMatch_le matched member after)
  · exact spaced.rising.value_le spaced.increasing encloses member after
      (ne_of_exactMatch noMatch member)

/-- The value lies between two of the stored ones. -/
theorem percentile_bounds (spaced : estimates.Spaced) {x : F64} {v : T}
    (value : estimates.percentile x = some v) :
    (∃ node ∈ estimates.quantiles, node.2 ≤ v) ∧ ∃ node ∈ estimates.quantiles, v ≤ node.2 := by
  rcases spaced.percentile_eq_some value with ⟨q, matched, rfl⟩ | ⟨_, found, _, encloses, rfl⟩
  · have has := (spaced.exactMatch_least matched).1
    exact ⟨⟨q, has, le_refl _⟩, ⟨q, has, le_refl _⟩⟩
  · exact spaced.rising.value_bounds encloses

section Apart

/-! Two percentiles without a stored one between them are on the same side of each. -/

variable {x y : F64} {w : T} (ordered : x ≤ y)
  (apart : ∀ node ∈ estimates.quantiles, node.1 < x ∨ y < node.1)
include ordered apart

/-- The match of the first percentile is the match of the second one, or lies before both. -/
theorem le_percentile_of_exactMatch (spaced : estimates.Spaced) {q : F64 × T}
    (matched : estimates.exactMatch x = some q) (second : estimates.percentile y = some w) :
    q.2 ≤ w := by
  obtain ⟨has, near, least⟩ := spaced.exactMatch_least matched
  rcases apart q has with before | after
  · exact spaced.le_percentile has (before.le.trans ordered) second
  · rcases spaced.percentile_eq_some second with ⟨r, matchedLater, rfl⟩ | ⟨noMatch, _⟩
    · obtain ⟨hasLater, nearLater, _⟩ := spaced.exactMatch_least matchedLater
      apply spaced.increasing.value_le has hasLater
      rcases apart r hasLater with beforeLater | afterLater
      · have between : x ∈ Set.uIcc y r.1 := Set.mem_uIcc_of_ge beforeLater.le ordered
        exact least r hasLater ((Set.abs_sub_right_of_mem_uIcc between).trans_lt nearLater)
      · exact spaced.exactMatch_le matched hasLater (ordered.trans afterLater.le)
    · have between : y ∈ Set.uIcc x q.1 := Set.mem_uIcc_of_le ordered after.le
      have stillNear := (Set.abs_sub_right_of_mem_uIcc between).trans_lt near
      exact absurd stillNear (not_lt.mpr (far_of_exactMatch noMatch has))

omit [DistributionValue T] in
/-- Where the first percentile has no match, a match of the second one lies after both. -/
theorem lt_of_exactMatch {r : F64 × T} (noMatch : estimates.exactMatch x = none)
    (has : r ∈ estimates.quantiles) (near : |r.1 - y| < EPSILON) : y < r.1 := by
  apply (apart r has).resolve_left
  intro before
  have between : x ∈ Set.uIcc y r.1 := Set.mem_uIcc_of_ge before.le ordered
  have stillNear := (Set.abs_sub_right_of_mem_uIcc between).trans_lt near
  exact absurd stillNear (not_lt.mpr (far_of_exactMatch noMatch has))

omit [DistributionValue T] in
theorem locate_eq_of_apart : locate estimates.quantiles x = locate estimates.quantiles y := by
  apply locate_congr
  intro node member
  rcases apart node member with before | after
  · have both : node.1 < y := before.trans_le ordered
    exact ⟨iff_of_true before.le both.le, iff_of_false (not_le.mpr before) (not_le.mpr both)⟩
  · have both : x < node.1 := ordered.trans_lt after
    exact ⟨iff_of_false (not_le.mpr both) (not_le.mpr after), iff_of_true both.le after.le⟩

theorem percentile_mono_of_apart (spaced : estimates.Spaced) {v : T}
    (first : estimates.percentile x = some v) (second : estimates.percentile y = some w) :
    v ≤ w := by
  rcases spaced.percentile_eq_some first with
    ⟨q, matched, rfl⟩ | ⟨noMatch, found, located, encloses, rfl⟩
  · exact le_percentile_of_exactMatch ordered apart spaced matched second
  · rcases spaced.percentile_eq_some second with
      ⟨r, matched, rfl⟩ | ⟨_, other, locatedLater, _, rfl⟩
    · obtain ⟨has, near, _⟩ := spaced.exactMatch_least matched
      have after := lt_of_exactMatch ordered apart noMatch has near
      exact spaced.percentile_le has (ordered.trans after.le) first
    · rw [← locate_eq_of_apart ordered apart, located, Option.some.injEq] at locatedLater
      subst locatedLater
      exact spaced.rising.value_mono encloses ordered

end Apart

theorem percentile_mono (spaced : estimates.Spaced) {x y : F64} {v w : T} (ordered : x ≤ y)
    (first : estimates.percentile x = some v) (second : estimates.percentile y = some w) :
    v ≤ w := by
  by_cases between : ∃ node ∈ estimates.quantiles, x ≤ node.1 ∧ node.1 ≤ y
  · obtain ⟨node, member, after, before⟩ := between
    calc
      v ≤ node.2 := spaced.percentile_le member after first
      _ ≤ w := spaced.le_percentile member before second
  · apply percentile_mono_of_apart ordered _ spaced first second
    intro node member
    by_contra inside
    rw [not_or, not_lt, not_lt] at inside
    exact between ⟨node, member, inside⟩

end Spaced

/-- A monotone interpolant: defined everywhere, between the stored values around it. -/
structure MonotoneInterpolant (estimates : Estimates T) : Prop where
  isSome : ∀ x, (estimates.percentile x).isSome
  bounds : ∀ x v first last, estimates.percentile x = some v →
    estimates.quantiles.head? = some first → estimates.quantiles.getLast? = some last →
      first.2 ≤ v ∧ v ≤ last.2
  bracket : ∀ x v i left right, estimates.percentile x = some v →
    estimates.quantiles[i]? = some left → estimates.quantiles[i + 1]? = some right →
      left.1 ≤ x → x ≤ right.1 → left.2 ≤ v ∧ v ≤ right.2
  mono : ∀ x y v w, x ≤ y → estimates.percentile x = some v → estimates.percentile y = some w →
    v ≤ w

theorem Spaced.monotoneInterpolant {estimates : Estimates T} (spaced : estimates.Spaced) :
    estimates.MonotoneInterpolant := by
  have increasing := spaced.increasing
  constructor
  case isSome =>
    intro x
    rcases spaced.percentile_cases x with ⟨_, _, result⟩ | ⟨_, _, _, _, result⟩
    · simp [result]
    · simp [result]
  case bounds =>
    intro x v first last value isFirst isLast
    obtain ⟨⟨low, hasLow, lowLe⟩, ⟨high, hasHigh, leHigh⟩⟩ := spaced.percentile_bounds value
    have hasFirst := List.mem_of_mem_head? isFirst
    have hasLast := List.mem_of_mem_getLast? isLast
    constructor
    · calc
        first.2 ≤ low.2 := increasing.value_le hasFirst hasLow (increasing.head_le isFirst hasLow)
        _ ≤ v := lowLe
    · calc
        v ≤ high.2 := leHigh
        _ ≤ last.2 := increasing.value_le hasHigh hasLast (increasing.le_getLast isLast hasHigh)
  case bracket =>
    intro x v i left right value isLeft isRight after before
    constructor
    · exact spaced.le_percentile (List.mem_of_getElem? isLeft) after value
    · exact spaced.percentile_le (List.mem_of_getElem? isRight) before value
  case mono =>
    intro x y v w ordered first second
    exact spaced.percentile_mono ordered first second

/-- Durations are truncated to nanoseconds, numbers are kept. -/
theorem percentile_monotoneInterpolant :
    (∀ estimates : Estimates Duration, estimates.Spaced → estimates.MonotoneInterpolant) ∧
      ∀ estimates : Estimates F64, estimates.Spaced → estimates.MonotoneInterpolant :=
  ⟨fun _ spaced => spaced.monotoneInterpolant, fun _ spaced => spaced.monotoneInterpolant⟩

/-- Two percentiles at the least distance, and two that are far apart. -/
theorem percentile_monotoneInterpolant_pair :
    (⟨[(1 / 2, ⟨100⟩), (1 / 2 + EPSILON, ⟨300⟩)]⟩ : Estimates Duration).MonotoneInterpolant ∧
      (⟨[(0, -1), (1, 2)]⟩ : Estimates F64).MonotoneInterpolant := by
  constructor
  · apply percentile_monotoneInterpolant.1
    constructor
    case nonempty => exact List.cons_ne_nil _ _
    case spaced => simp [Duration.le_iff]
    case fits => simp [Fits]
  · apply percentile_monotoneInterpolant.2
    constructor
    case nonempty => exact List.cons_ne_nil _ _
    case spaced => norm_num [EPSILON]
    case fits => simp [Fits]

end Estimates

end Schtest.Stats
