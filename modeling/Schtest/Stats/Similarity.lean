import Schtest.Numeric.Weights
import Schtest.Stats.Estimates
import Mathlib.Data.List.Sort

/-!
# Similarity

The similarity of two distributions compares their interpolants at all stored
percentiles, weighs the differences by the share of each percentile, and relates
the mean to the range of the values.
-/

namespace Schtest.Stats

open Schtest.Numeric DistributionValue

/-- Pairs of a percentile and an `f64` value. -/
abbrev Quantiles :=
  List (F64 × F64)

/-- Zero without quantiles, and where no neighbours are found. -/
def interpolateValue (quantiles : Quantiles) (percentile : F64) : F64 :=
  (interpolate lerp quantiles percentile).getD 0

/-! ## Merging -/

/-- Add the percentile of a quantile unless it is there. -/
def pushNew (percentiles : List F64) (quantile : F64 × F64) : List F64 :=
  if quantile.1 ∈ percentiles then percentiles else percentiles ++ [quantile.1]

/-- The percentiles of both, each once, in order. -/
def mergedPercentiles (a b : Quantiles) : List F64 :=
  (b.foldl pushNew (a.foldl pushNew [])).insertionSort (· ≤ ·)

/-- `merge_quantiles`: the mean of both values at every percentile. -/
def mergeQuantiles (a b : Quantiles) : Quantiles :=
  (mergedPercentiles a b).map fun p =>
    let aValue := interpolateValue a p
    let bValue := interpolateValue b p
    (p, (aValue + bValue) / 2)

/-! ## The distance -/

/-- `quantiles[index].0`, for an index in range. -/
def percentileAt (quantiles : Quantiles) (index : Nat) : F64 :=
  (quantiles.map Prod.fst).getD index 0

/-- `width`: how much of the distribution the quantile at `index` stands for. -/
def width (quantiles : Quantiles) (index : Nat) : F64 :=
  let before :=
    if index = 0 then percentileAt quantiles 0
    else (percentileAt quantiles index - percentileAt quantiles (index - 1)) / 2
  let after :=
    if index = quantiles.length - 1 then 1 - percentileAt quantiles index
    else (percentileAt quantiles (index + 1) - percentileAt quantiles index) / 2
  before + after

/-- `(a_value - b_value).abs()`. -/
def delta (a b : Quantiles) (percentile : F64) : F64 :=
  |interpolateValue a percentile - interpolateValue b percentile|

/-- The lesser of the first values. -/
def totalMin (a b : Quantiles) : F64 :=
  min ((a.head?.map Prod.snd).getD 0) ((b.head?.map Prod.snd).getD 0)

/-- The greater of the last values. -/
def totalMax (a b : Quantiles) : F64 :=
  max ((a.getLast?.map Prod.snd).getD 0) ((b.getLast?.map Prod.snd).getD 0)

/-- The loop adds the differences up, one for each of the merged quantiles. -/
def distance (a b : Quantiles) : F64 :=
  if a = [] ∨ b = [] then 1
  else
    let quantiles := mergeQuantiles a b
    if |totalMax a b - totalMin a b| < EPSILON then 0
    else
      (∑ i ∈ Finset.range quantiles.length,
        width quantiles i * delta a b (percentileAt quantiles i)) / (totalMax a b - totalMin a b)

/-- `estimates.quantiles.iter().map(|&(p, v)| (p, to_f64(v))).collect()`. -/
def Estimates.toQuantiles {T : Type} [DistributionValue T] (estimates : Estimates T) : Quantiles :=
  estimates.quantiles.map fun q => (q.1, toF64 q.2)

/-- `Estimates::similarity`. -/
def similarity {T : Type} [DistributionValue T] (a b : Estimates T) : F64 :=
  1 - distance a.toQuantiles b.toQuantiles

/-! ## The merged percentiles -/

theorem mem_pushNew {percentiles : List F64} {quantile : F64 × F64} {p : F64} :
    p ∈ pushNew percentiles quantile ↔ p ∈ percentiles ∨ p = quantile.1 := by
  unfold pushNew
  split
  · rename_i present
    constructor
    · exact Or.inl
    · rintro (has | rfl)
      · exact has
      · exact present
  · simp

theorem nodup_pushNew {percentiles : List F64} (nodup : percentiles.Nodup)
    (quantile : F64 × F64) : (pushNew percentiles quantile).Nodup := by
  unfold pushNew
  split
  · exact nodup
  · rename_i new
    rw [← List.concat_eq_append, List.nodup_concat]
    exact ⟨new, nodup⟩

theorem mem_foldl_pushNew {quantiles : Quantiles} {percentiles : List F64} {p : F64} :
    p ∈ quantiles.foldl pushNew percentiles ↔
      p ∈ percentiles ∨ p ∈ quantiles.map Prod.fst := by
  induction quantiles generalizing percentiles with
  | nil => simp
  | cons quantile rest inductionHypothesis =>
      rw [List.foldl_cons, inductionHypothesis, mem_pushNew]
      simp [or_assoc]

theorem nodup_foldl_pushNew {quantiles : Quantiles} {percentiles : List F64}
    (nodup : percentiles.Nodup) : (quantiles.foldl pushNew percentiles).Nodup := by
  induction quantiles generalizing percentiles with
  | nil => exact nodup
  | cons quantile rest inductionHypothesis =>
      rw [List.foldl_cons]
      exact inductionHypothesis (nodup_pushNew nodup quantile)

theorem mem_mergedPercentiles {a b : Quantiles} {p : F64} :
    p ∈ mergedPercentiles a b ↔ p ∈ a.map Prod.fst ∨ p ∈ b.map Prod.fst := by
  rw [mergedPercentiles, (List.perm_insertionSort _ _).mem_iff, mem_foldl_pushNew,
    mem_foldl_pushNew]
  simp

theorem nodup_mergedPercentiles (a b : Quantiles) : (mergedPercentiles a b).Nodup := by
  rw [mergedPercentiles, (List.perm_insertionSort _ _).nodup_iff]
  exact nodup_foldl_pushNew (nodup_foldl_pushNew List.nodup_nil)

theorem sorted_mergedPercentiles (a b : Quantiles) :
    (mergedPercentiles a b).Pairwise (· < ·) := by
  have sorted : (mergedPercentiles a b).Pairwise (· ≤ ·) := List.pairwise_insertionSort _ _
  have both := sorted.and (nodup_mergedPercentiles a b)
  exact both.imp fun ordered => lt_of_le_of_ne ordered.1 ordered.2

/-- The merged percentiles do not depend on the order of the lists. -/
theorem mergedPercentiles_comm (a b : Quantiles) :
    mergedPercentiles a b = mergedPercentiles b a := by
  apply List.Perm.eq_of_pairwise _ (sorted_mergedPercentiles a b) (sorted_mergedPercentiles b a)
  · apply (List.perm_ext_iff_of_nodup (nodup_mergedPercentiles a b)
      (nodup_mergedPercentiles b a)).mpr
    intro p
    rw [mem_mergedPercentiles, mem_mergedPercentiles, or_comm]
  · intro first second _ _ before after
    exact absurd (before.trans after) (lt_irrefl _)

@[simp]
theorem map_fst_mergeQuantiles (a b : Quantiles) :
    (mergeQuantiles a b).map Prod.fst = mergedPercentiles a b := by
  simp [mergeQuantiles, Function.comp_def]

@[simp]
theorem length_mergeQuantiles (a b : Quantiles) :
    (mergeQuantiles a b).length = (mergedPercentiles a b).length := by
  simp [mergeQuantiles]

/-! ## Widths -/

/-- A width is the piece that is cut around its percentile. -/
theorem width_eq_cut {quantiles : Quantiles} {index : Nat} (inside : index < quantiles.length) :
    width quantiles index =
      cut (percentileAt quantiles) quantiles.length (index + 1) -
        cut (percentileAt quantiles) quantiles.length index := by
  have lastIndex : index = quantiles.length - 1 ↔ index + 1 = quantiles.length := by omega
  unfold width cut
  simp only [lastIndex, if_neg (Nat.succ_ne_zero index), Nat.add_sub_cancel, if_neg inside.ne]
  by_cases first : index = 0
  · subst first
    simp only [if_pos, Nat.zero_add]
    split
    · ring
    · ring
  · rw [if_neg first, if_neg first]
    split
    · ring
    · ring

/-- Quantile lists that a distribution gives. -/
structure Proper (quantiles : Quantiles) : Prop where
  nonempty : quantiles ≠ []
  increasing : Increasing quantiles
  unit : ∀ q ∈ quantiles, 0 ≤ q.1 ∧ q.1 ≤ 1

section Merged

variable {a b : Quantiles}

theorem percentileAt_mergeQuantiles {index : Nat}
    (inside : index < (mergedPercentiles a b).length) :
    percentileAt (mergeQuantiles a b) index = (mergedPercentiles a b)[index] := by
  rw [percentileAt, map_fst_mergeQuantiles, List.getD_eq_getElem?_getD,
    List.getElem?_eq_getElem inside, Option.getD_some]

theorem percentileAt_lt {index : Nat} (inside : index + 1 < (mergedPercentiles a b).length) :
    percentileAt (mergeQuantiles a b) index < percentileAt (mergeQuantiles a b) (index + 1) := by
  have here : index < (mergedPercentiles a b).length := by omega
  rw [percentileAt_mergeQuantiles here, percentileAt_mergeQuantiles inside]
  exact List.pairwise_iff_getElem.mp (sorted_mergedPercentiles a b) _ _ here inside (by omega)

theorem unit_mergedPercentiles (properA : Proper a) (properB : Proper b) {p : F64}
    (member : p ∈ mergedPercentiles a b) : 0 ≤ p ∧ p ≤ 1 := by
  rcases mem_mergedPercentiles.mp member with inA | inB
  · obtain ⟨q, has, rfl⟩ := List.mem_map.mp inA
    exact properA.unit q has
  · obtain ⟨q, has, rfl⟩ := List.mem_map.mp inB
    exact properB.unit q has

theorem width_pos (properA : Proper a) (properB : Proper b) {index : Nat}
    (inside : index < (mergeQuantiles a b).length) : 0 < width (mergeQuantiles a b) index := by
  rw [width_eq_cut inside, sub_pos]
  apply cut_lt_cut _ _ inside
  · intro i next
    rw [length_mergeQuantiles] at next
    exact percentileAt_lt next
  · intro i within
    rw [length_mergeQuantiles] at within
    rw [percentileAt_mergeQuantiles within]
    exact unit_mergedPercentiles properA properB (List.getElem_mem within)

/-- The widths of the merged quantiles are the shares of one. -/
theorem sum_width (nonempty : a ≠ []) :
    ∑ i ∈ Finset.range (mergeQuantiles a b).length, width (mergeQuantiles a b) i = 1 := by
  have positive : 0 < (mergeQuantiles a b).length := by
    obtain ⟨q, has⟩ := List.exists_mem_of_ne_nil a nonempty
    have member : q.1 ∈ mergedPercentiles a b :=
      mem_mergedPercentiles.mpr (.inl (List.mem_map_of_mem has))
    rw [length_mergeQuantiles]
    exact List.length_pos_of_mem member
  rw [← sum_cut_sub (percentileAt (mergeQuantiles a b)) positive]
  apply Finset.sum_congr rfl
  intro i member
  exact width_eq_cut (Finset.mem_range.mp member)

end Merged

/-! ## Interpolants and the range -/

theorem interpolateValue_eq {quantiles : Quantiles} (proper : Proper quantiles) (p : F64) :
    ∃ found, Encloses quantiles p found ∧ interpolateValue quantiles p = found.value lerp p := by
  obtain ⟨found, located, encloses⟩ := proper.increasing.locate_eq proper.nonempty p
  constructor
  constructor
  · exact encloses
  · rw [interpolateValue, interpolate, located, Option.map_some, Option.getD_some]

/-- It is piecewise linear, and constant outside of the quantiles. -/
theorem piecewiseLinear_interpolateValue {quantiles : Quantiles} (proper : Proper quantiles) :
    PiecewiseLinear quantiles (interpolateValue quantiles) :=
  proper.increasing.piecewiseLinear proper.nonempty 0

/-- There is no other such function. -/
theorem eq_interpolateValue {quantiles : Quantiles} (proper : Proper quantiles) {f : F64 → F64}
    (linear : PiecewiseLinear quantiles f) : f = interpolateValue quantiles := by
  funext p
  obtain ⟨found, located, _⟩ := proper.increasing.locate_eq proper.nonempty p
  have same := (piecewiseLinear_interpolateValue proper).eq_value proper.increasing located
  rw [linear.eq_value proper.increasing located, same]

/-- An interpolant stays between the first and the last value. -/
theorem interpolateValue_bounds {quantiles : Quantiles} (proper : Proper quantiles) (p : F64) :
    (quantiles.head?.map Prod.snd).getD 0 ≤ interpolateValue quantiles p ∧
      interpolateValue quantiles p ≤ (quantiles.getLast?.map Prod.snd).getD 0 := by
  obtain ⟨found, encloses, value⟩ := interpolateValue_eq proper p
  obtain ⟨⟨low, hasLow, lowLe⟩, ⟨high, hasHigh, leHigh⟩⟩ :=
    (rising_lerp quantiles).value_bounds encloses
  have increasing := proper.increasing
  have isFirst := List.head?_eq_some_head proper.nonempty
  have isLast := List.getLast?_eq_some_getLast proper.nonempty
  rw [value, isFirst, isLast]
  constructor
  · calc
      (quantiles.head proper.nonempty).2 ≤ low.2 :=
        increasing.value_le (List.head_mem _) hasLow (increasing.head_le isFirst hasLow)
      _ ≤ found.value lerp p := lowLe
  · calc
      found.value lerp p ≤ high.2 := leHigh
      _ ≤ (quantiles.getLast proper.nonempty).2 :=
        increasing.value_le hasHigh (List.getLast_mem _) (increasing.le_getLast isLast hasHigh)

theorem delta_nonneg (a b : Quantiles) (p : F64) : 0 ≤ delta a b p :=
  abs_nonneg _

theorem delta_comm (a b : Quantiles) (p : F64) : delta a b p = delta b a p :=
  abs_sub_comm _ _

theorem delta_eq_zero_iff {a b : Quantiles} {p : F64} :
    delta a b p = 0 ↔ interpolateValue a p = interpolateValue b p := by
  rw [delta, abs_eq_zero, sub_eq_zero]

section Range

variable {a b : Quantiles}

/-- A difference is at most the range of the values. -/
theorem delta_le (properA : Proper a) (properB : Proper b) (p : F64) :
    delta a b p ≤ totalMax a b - totalMin a b := by
  have boundsA := interpolateValue_bounds properA p
  have boundsB := interpolateValue_bounds properB p
  have lowA : totalMin a b ≤ interpolateValue a p := (min_le_left _ _).trans boundsA.1
  have lowB : totalMin a b ≤ interpolateValue b p := (min_le_right _ _).trans boundsB.1
  have highA : interpolateValue a p ≤ totalMax a b := boundsA.2.trans (le_max_left _ _)
  have highB : interpolateValue b p ≤ totalMax a b := boundsB.2.trans (le_max_right _ _)
  rw [delta, abs_le]
  constructor
  · linarith
  · linarith

theorem range_nonneg (properA : Proper a) (properB : Proper b) :
    0 ≤ totalMax a b - totalMin a b :=
  (delta_nonneg a b 0).trans (delta_le properA properB 0)

/-- The mean of the differences. -/
def meanDelta (a b : Quantiles) : F64 :=
  ∑ i ∈ Finset.range (mergeQuantiles a b).length,
    width (mergeQuantiles a b) i * delta a b (percentileAt (mergeQuantiles a b) i)

theorem distance_of_lt (properA : Proper a) (properB : Proper b)
    (narrow : totalMax a b - totalMin a b < EPSILON) : distance a b = 0 := by
  rw [distance, if_neg (not_or.mpr ⟨properA.nonempty, properB.nonempty⟩)]
  simp [abs_of_nonneg (range_nonneg properA properB), narrow]

theorem distance_of_le (properA : Proper a) (properB : Proper b)
    (wide : EPSILON ≤ totalMax a b - totalMin a b) :
    distance a b = meanDelta a b / (totalMax a b - totalMin a b) := by
  rw [distance, if_neg (not_or.mpr ⟨properA.nonempty, properB.nonempty⟩)]
  simp [abs_of_nonneg (range_nonneg properA properB), not_lt.mpr wide, meanDelta]

theorem meanDelta_bounds (properA : Proper a) (properB : Proper b) :
    0 ≤ meanDelta a b ∧ meanDelta a b ≤ totalMax a b - totalMin a b := by
  have weights := fun i (inside : i < (mergeQuantiles a b).length) =>
    width_pos properA properB inside
  constructor
  · exact mean_nonneg weights fun i _ => delta_nonneg a b _
  · exact mean_le weights (sum_width properA.nonempty) fun i _ => delta_le properA properB _

/-- The mean vanishes when the interpolants agree at every stored percentile. -/
theorem meanDelta_eq_zero_iff (properA : Proper a) (properB : Proper b) :
    meanDelta a b = 0 ↔
      ∀ p ∈ mergedPercentiles a b, interpolateValue a p = interpolateValue b p := by
  have weights := fun i (inside : i < (mergeQuantiles a b).length) =>
    width_pos properA properB inside
  rw [meanDelta, mean_eq_zero_iff weights fun i _ => delta_nonneg a b _]
  constructor
  · intro all p member
    obtain ⟨index, inside, rfl⟩ := List.getElem_of_mem member
    have zero := all index (by rw [length_mergeQuantiles]; exact inside)
    rw [percentileAt_mergeQuantiles inside] at zero
    exact delta_eq_zero_iff.mp zero
  · intro all i inside
    rw [length_mergeQuantiles] at inside
    rw [percentileAt_mergeQuantiles inside]
    exact delta_eq_zero_iff.mpr (all _ (List.getElem_mem inside))

theorem distance_bounds (properA : Proper a) (properB : Proper b) :
    0 ≤ distance a b ∧ distance a b ≤ 1 := by
  by_cases narrow : totalMax a b - totalMin a b < EPSILON
  · rw [distance_of_lt properA properB narrow]
    exact ⟨le_refl 0, zero_le_one⟩
  · have wide := not_lt.mp narrow
    have positive := EPSILON_pos.trans_le wide
    obtain ⟨nonneg, le⟩ := meanDelta_bounds properA properB
    rw [distance_of_le properA properB wide]
    constructor
    · exact div_nonneg nonneg positive.le
    · exact (div_le_one positive).mpr le

theorem distance_eq_zero_iff (properA : Proper a) (properB : Proper b)
    (wide : EPSILON ≤ totalMax a b - totalMin a b) :
    distance a b = 0 ↔
      ∀ p ∈ mergedPercentiles a b, interpolateValue a p = interpolateValue b p := by
  have positive := EPSILON_pos.trans_le wide
  rw [distance_of_le properA properB wide, div_eq_zero_iff, or_iff_left positive.ne',
    meanDelta_eq_zero_iff properA properB]

theorem percentileAt_mergeQuantiles_comm (a b : Quantiles) :
    percentileAt (mergeQuantiles a b) = percentileAt (mergeQuantiles b a) := by
  funext index
  simp [percentileAt, mergedPercentiles_comm a b]

theorem distance_comm (a b : Quantiles) : distance a b = distance b a := by
  have length : (mergeQuantiles a b).length = (mergeQuantiles b a).length := by
    simp [mergedPercentiles_comm a b]
  have least : totalMin a b = totalMin b a := min_comm _ _
  have greatest : totalMax a b = totalMax b a := max_comm _ _
  simp only [distance, width, or_comm, length, least, greatest,
    percentileAt_mergeQuantiles_comm a b, delta_comm a b]

end Range

/-! ## Estimates -/

variable {T : Type} [DistributionValue T]

/-- Estimates with increasing percentiles in the unit interval and values that do not decrease. -/
structure Estimates.Proper (estimates : Estimates T) : Prop where
  nonempty : estimates.quantiles ≠ []
  increasing : Increasing estimates.quantiles
  unit : ∀ q ∈ estimates.quantiles, 0 ≤ q.1 ∧ q.1 ≤ 1

theorem Estimates.Proper.toQuantiles {estimates : Estimates T} (proper : estimates.Proper) :
    Stats.Proper estimates.toQuantiles := by
  constructor
  case nonempty =>
    intro empty
    exact proper.nonempty (List.map_eq_nil_iff.mp empty)
  case increasing =>
    apply List.pairwise_map.mpr
    exact proper.increasing.imp fun both => ⟨both.1, toF64_mono both.2⟩
  case unit =>
    intro q member
    obtain ⟨stored, has, rfl⟩ := List.mem_map.mp member
    exact proper.unit stored has

/-- The percentiles that are stored in either of two estimates. -/
def Estimates.percentiles (a b : Estimates T) : List F64 :=
  a.quantiles.map Prod.fst ++ b.quantiles.map Prod.fst

/-- The piecewise linear functions through the quantiles of two estimates agree
at a percentile. -/
def Estimates.Agree (a b : Estimates T) (p : F64) : Prop :=
  ∃ f g : F64 → F64, PiecewiseLinear a.toQuantiles f ∧ PiecewiseLinear b.toQuantiles g ∧ f p = g p

theorem Estimates.agree_iff {a b : Estimates T} (properA : a.Proper) (properB : b.Proper)
    {p : F64} :
    a.Agree b p ↔ interpolateValue a.toQuantiles p = interpolateValue b.toQuantiles p := by
  have quantilesA := properA.toQuantiles
  have quantilesB := properB.toQuantiles
  constructor
  · rintro ⟨f, g, linearF, linearG, same⟩
    rw [← eq_interpolateValue quantilesA linearF, ← eq_interpolateValue quantilesB linearG]
    exact same
  · intro same
    exact ⟨_, _, piecewiseLinear_interpolateValue quantilesA,
      piecewiseLinear_interpolateValue quantilesB, same⟩

/-- The range of the values of two estimates. -/
def Estimates.range (a b : Estimates T) : F64 :=
  totalMax a.toQuantiles b.toQuantiles - totalMin a.toQuantiles b.toQuantiles

theorem Estimates.mem_percentiles {a b : Estimates T} {p : F64} :
    p ∈ a.percentiles b ↔ p ∈ mergedPercentiles a.toQuantiles b.toQuantiles := by
  rw [mem_mergedPercentiles, percentiles, List.mem_append]
  simp [Estimates.toQuantiles, Function.comp_def]

theorem similarity_self {a : Estimates T} (proper : a.Proper) : similarity a a = 1 := by
  have zero : distance a.toQuantiles a.toQuantiles = 0 := by
    have quantiles := proper.toQuantiles
    by_cases narrow : a.range a < EPSILON
    · exact distance_of_lt quantiles quantiles narrow
    · exact (distance_eq_zero_iff quantiles quantiles (not_lt.mp narrow)).mpr fun _ _ => rfl
  rw [similarity, zero, sub_zero]

/-- The similarity lies between zero and one, is symmetric, and is one for interpolants that
agree wherever a percentile is stored. -/
theorem similarity_spec {a b : Estimates T} (properA : a.Proper) (properB : b.Proper) :
    (0 ≤ similarity a b ∧ similarity a b ≤ 1) ∧ similarity a b = similarity b a ∧
      (EPSILON ≤ a.range b → (similarity a b = 1 ↔ ∀ p ∈ a.percentiles b, a.Agree b p)) ∧
        similarity a a = 1 := by
  have quantilesA := properA.toQuantiles
  have quantilesB := properB.toQuantiles
  obtain ⟨nonneg, le⟩ := distance_bounds quantilesA quantilesB
  constructor
  · rw [similarity]
    constructor
    · exact sub_nonneg.mpr le
    · exact sub_le_self 1 nonneg
  constructor
  · rw [similarity, similarity, distance_comm]
  constructor
  · intro wide
    rw [similarity, sub_eq_self, distance_eq_zero_iff quantilesA quantilesB wide]
    simp only [Estimates.mem_percentiles, Estimates.agree_iff properA properB]
  · exact similarity_self properA

/-- Two estimates that share one of their percentiles: the differences are 50, 50
and 700 of a range of 800, with weights 1/4, 1/2 and 1/4. -/
theorem similarity_spec_overlapping :
    let a : Estimates Duration := ⟨[(0, ⟨100⟩), (1 / 2, ⟨200⟩)]⟩
    let b : Estimates Duration := ⟨[(1 / 2, ⟨150⟩), (1, ⟨900⟩)]⟩
    EPSILON ≤ a.range b ∧
      (0 ≤ similarity a b ∧ similarity a b ≤ 1) ∧ similarity a b = similarity b a ∧
      similarity a b = 47 / 64 ∧ (¬ ∀ p ∈ a.percentiles b, a.Agree b p) ∧
        similarity a a = 1 := by
  intro a b
  have properA : a.Proper := by
    constructor
    case nonempty => exact List.cons_ne_nil _ _
    case increasing => norm_num [a, Increasing, Duration.le_iff]
    case unit => norm_num [a]
  have properB : b.Proper := by
    constructor
    case nonempty => exact List.cons_ne_nil _ _
    case increasing => norm_num [b, Increasing, Duration.le_iff]
    case unit => norm_num [b]
  have wide : EPSILON ≤ a.range b := by
    norm_num [a, b, EPSILON, Estimates.range, totalMax, totalMin, Estimates.toQuantiles, toF64,
      Duration.asSecsF64]
  have number : similarity a b = 47 / 64 := by decide +kernel
  obtain ⟨unit, symmetric, one, self⟩ := similarity_spec properA properB
  refine ⟨wide, unit, symmetric, number, ?_, self⟩
  intro agree
  rw [(one wide).mpr agree] at number
  norm_num at number

end Schtest.Stats
