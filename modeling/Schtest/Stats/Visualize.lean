import Mathlib.Algebra.Order.Round
import Mathlib.Data.List.GetD
import Mathlib.Data.List.MinMax
import Mathlib.Data.List.Sort
import Schtest.Numeric.Hump
import Schtest.Stats.Estimates

/-!
# The picture of a distribution

`visualize` draws the standard quantiles of a distribution as a line of bars between
the labels of the first and the last one, with the label of the median at its place.
How a value is written, and the width of the terminal, are those of the system.
-/

namespace Schtest.Stats

open Schtest.Numeric DistributionValue

/-! ## Bars -/

/-- The bars, from the lowest to the highest. -/
def BARS : List Char :=
  ['▁', '▂', '▃', '▄', '▅', '▆', '▇', '█']

/-- The bar of this height. -/
def bar (height : Nat) : Char :=
  BARS.getD height ' '

/-- `BARS.len() - 1`. -/
def maxBar : Nat :=
  7

/-- The number of bytes of a text. -/
def byteLen (text : List Char) : Nat :=
  (text.map Char.utf8Size).sum

/-- `(p - standard).abs() < 1e-6`. -/
def near (p standard : F64) : Bool :=
  |p - standard| < 1 / 1000000

/-- The percentiles that are drawn. -/
def standard : List F64 :=
  [1 / 1000, 1 / 100, 1 / 10, 1 / 2, 9 / 10, 99 / 100, 999 / 1000]

/-- `if i <= n / 2 { i } else { n - 1 - i }`. -/
def barIndex (n i : Nat) : Nat :=
  if i ≤ n / 2 then i else n - 1 - i

/-- `while seg + 1 < n && value > quantile_points[seg + 1].1 { seg += 1; }`. -/
def segment : List F64 → F64 → Nat
  | _ :: next :: rest, value => if value > next then segment (next :: rest) value + 1 else 0
  | _, _ => 0

/-- `((value - v1) / (v2 - v1)).clamp(0.0, 1.0)`. -/
def fraction (v1 v2 value : F64) : F64 :=
  if |v2 - v1| < EPSILON then 0 else max 0 (min 1 ((value - v1) / (v2 - v1)))

/-- The point that follows a segment, the segment itself at the end. -/
def following (n seg : Nat) : Nat :=
  if seg + 1 < n then seg + 1 else seg

/-- `((bar_f / center.max(1)) * max_bar).round()`, at most the last bar. -/
def rounded (n : Nat) (barF : F64) : Nat :=
  min ⌊barF / (max (n / 2) 1 : Nat) * maxBar + 1 / 2⌋₊ maxBar

/-- The height of the bar at a value. -/
def height (points : List F64) (value : F64) : Option Nat := do
  let n := points.length
  let seg := segment points value
  let v1 ← points[seg]?
  let v2 ← points[following n seg]?
  let t := fraction v1 v2 value
  some (rounded n (between (barIndex n seg : F64) (barIndex n (following n seg)) t))

/-- The value at a place of the line. -/
def valueAt (points : List F64) (barWidth x : Nat) : Option F64 := do
  let first ← points[0]?
  let last ← points[points.length - 1]?
  let range := if |last - first| < EPSILON then 1 else last - first
  some (first + x / (barWidth - 1 : Nat) * range)

/-- The first place with the least distance: `min_by`. -/
def closest (barWidth : Nat) (distance : Nat → F64) : Nat :=
  ((List.range barWidth).argmin distance).getD (barWidth / 2)

namespace Estimates

variable {T : Type} [DistributionValue T] (debug : T → List Char) (estimates : Estimates T)

/-- `self.quantiles.iter().find(|(p, _)| (*p - percentile).abs() < 1e-6)`. -/
def quantileNear (percentile : F64) : Option T :=
  (estimates.quantiles.find? fun q => near q.1 percentile).map Prod.snd

/-- The label on the left. -/
def minLabel : List Char :=
  ((estimates.quantileNear (1 / 1000)).map debug).getD "min".toList

/-- The label on the right. -/
def maxLabel : List Char :=
  ((estimates.quantileNear (999 / 1000)).map debug).getD "max".toList

/-- The label of the median, where there is one. -/
def p50Label : Option (List Char) :=
  (estimates.quantileNear (1 / 2)).map debug

/-- The label of the median, with the blanks around it. -/
def p50Len : Nat :=
  ((estimates.p50Label debug).map fun label => byteLen label + 2).getD 0

/-- The places for the whole line: those asked for, or those of the terminal, or 64. -/
def barSpace (width terminal : Option Nat) : Nat :=
  max ((width <|> terminal).getD 64) 16

/-- The places for the bars: what the labels leave, and at least eight. -/
def barWidth (width terminal : Option Nat) : Nat :=
  max (barSpace width terminal - (byteLen (estimates.minLabel debug) + 1) -
    (estimates.p50Len debug + 2) - (byteLen (estimates.maxLabel debug) + 1)) 8

/-- The values of the standard quantiles, in order. -/
def points : List F64 :=
  (estimates.quantiles.filterMap fun q =>
    if standard.any (near q.1) then some (toF64 q.2) else none).mergeSort (· ≤ ·)

/-- The place of the label of the median. -/
def p50Pos (barWidth : Nat) (values : List F64) : Nat :=
  match estimates.quantileNear (1 / 2) with
  | some median => closest barWidth fun i => |values.getD i 0 - toF64 median|
  | none => barWidth / 2

/-- What stands between the bars: the median's label with its spaces. -/
def middle : List Char :=
  ((estimates.p50Label debug).map fun label => ' ' :: label ++ [' ']).getD []

/-- The bars between the labels, with the label of the median among them. -/
def compose (bars : List Char) (p50Pos : Nat) : List Char :=
  estimates.minLabel debug ++ [' ', '|'] ++ bars.take p50Pos ++ estimates.middle debug ++
    bars.drop p50Pos ++ ['|', ' '] ++ estimates.maxLabel debug

/-- `none` where the source panics. -/
def visualize (width terminal : Option Nat) : Option (List Char) := do
  let barWidth := estimates.barWidth debug width terminal
  let values ← (List.range barWidth).mapM (valueAt estimates.points barWidth)
  let heights ← values.mapM (height estimates.points)
  some (estimates.compose debug (heights.map bar) (estimates.p50Pos barWidth values))

end Estimates

/-! ## Segments -/

section Segment

variable {points : List F64} {value value' : F64}

theorem segment_lt_length (nonempty : points ≠ []) (value : F64) :
    segment points value < points.length := by
  fun_induction segment points value with
  | case1 first next rest value passed ih => simpa using ih (List.cons_ne_nil next rest)
  | case2 => simp
  | case3 points => exact List.length_pos_iff.mpr nonempty

/-- A greater value lies in the same segment or in a later one. -/
theorem segment_mono (points : List F64) (le : value ≤ value') :
    segment points value ≤ segment points value' := by
  fun_induction segment points value with
  | case1 first next rest value passed ih =>
      have also : value' > next := lt_of_lt_of_le passed le
      simpa [segment, also] using ih le
  | case2 => exact Nat.zero_le _
  | case3 => exact Nat.zero_le _

end Segment

section Following

variable {n seg : Nat}

theorem following_lt (below : seg < n) : following n seg < n := by
  unfold following
  split <;> omega

theorem le_following : seg ≤ following n seg := by
  unfold following
  split <;> omega

theorem following_le_of_lt {later : Nat} (before : seg < later) : following n seg ≤ later := by
  unfold following
  split <;> omega

theorem barIndex_mono {i j : Nat} (le : i ≤ j) (rising : j ≤ n / 2) :
    barIndex n i ≤ barIndex n j := by
  simp only [barIndex, rising, Nat.le_trans le rising, if_true]
  exact le

theorem barIndex_anti {i j : Nat} (falling : n / 2 ≤ i) (le : i ≤ j) :
    barIndex n j ≤ barIndex n i := by
  unfold barIndex
  split <;> split <;> omega

end Following

section Fraction

variable {v1 v2 value value' : F64}

theorem fraction_nonneg : 0 ≤ fraction v1 v2 value := by
  unfold fraction
  split
  · exact le_refl 0
  · exact le_max_left _ _

theorem fraction_le_one : fraction v1 v2 value ≤ 1 := by
  unfold fraction
  split
  · exact zero_le_one
  · exact max_le zero_le_one (min_le_left _ _)

theorem fraction_mono (ordered : v1 ≤ v2) (le : value ≤ value') :
    fraction v1 v2 value ≤ fraction v1 v2 value' := by
  unfold fraction
  split
  · exact le_refl 0
  · have rise : 0 ≤ v2 - v1 := sub_nonneg.mpr ordered
    gcongr

end Fraction

/-! ## Levels of the bars -/

/-- The height of the bar at a value, before it is rounded. -/
def level (points : List F64) (value : F64) : F64 :=
  let n := points.length
  let seg := segment points value
  between (barIndex n seg) (barIndex n (following n seg))
    (fraction (points.getD seg 0) (points.getD (following n seg) 0) value)

section Level

variable {points : List F64} {value value' : F64}

theorem height_eq (nonempty : points ≠ []) :
    height points value = some (rounded points.length (level points value)) := by
  have below := segment_lt_length nonempty value
  have next := following_lt below
  simp [height, level, below, next]

theorem getD_mono (sorted : points.Pairwise (· ≤ ·)) {i j : Nat} (le : i ≤ j)
    (below : j < points.length) : points.getD i 0 ≤ points.getD j 0 := by
  rcases Nat.lt_or_eq_of_le le with before | rfl
  · rw [List.getD_eq_getElem _ _ (Nat.lt_trans before below), List.getD_eq_getElem _ _ below]
    exact List.pairwise_iff_getElem.mp sorted i j _ below before
  · exact le_refl _

theorem barIndex_cast_mono {n i j : Nat} (le : i ≤ j) (rising : j ≤ n / 2) :
    (barIndex n i : F64) ≤ barIndex n j := by
  exact_mod_cast barIndex_mono le rising

theorem barIndex_cast_anti {n i j : Nat} (falling : n / 2 ≤ i) (le : i ≤ j) :
    (barIndex n j : F64) ≤ barIndex n i := by
  exact_mod_cast barIndex_anti falling le

theorem level_mem_of_rising (rising : segment points value < points.length / 2) :
    (barIndex points.length (segment points value) : F64) ≤ level points value ∧
      level points value ≤
        barIndex points.length (following points.length (segment points value)) :=
  between_mem_of_le (barIndex_cast_mono le_following (following_le_of_lt rising))
    fraction_nonneg fraction_le_one

theorem level_mem_of_falling (falling : points.length / 2 ≤ segment points value) :
    (barIndex points.length (following points.length (segment points value)) : F64) ≤
        level points value ∧
      level points value ≤ barIndex points.length (segment points value) :=
  between_mem_of_ge (barIndex_cast_anti falling le_following) fraction_nonneg fraction_le_one

/-- Before the centre the bars rise. -/
theorem level_rises (sorted : points.Pairwise (· ≤ ·)) (le : value ≤ value')
    (rising : segment points value' < points.length / 2) :
    level points value ≤ level points value' := by
  have below : segment points value' < points.length := by omega
  rcases Nat.lt_or_eq_of_le (segment_mono points le) with earlier | same
  · calc
      level points value ≤ barIndex points.length (following points.length _) :=
        (level_mem_of_rising (Nat.lt_trans earlier rising)).2
      _ ≤ barIndex points.length (segment points value') :=
        barIndex_cast_mono (following_le_of_lt earlier) rising.le
      _ ≤ level points value' := (level_mem_of_rising rising).1
  · unfold level
    rw [same]
    apply between_mono (barIndex_cast_mono le_following (following_le_of_lt rising))
    exact fraction_mono (getD_mono sorted le_following (following_lt below)) le

/-- From the centre on the bars fall. -/
theorem level_falls (sorted : points.Pairwise (· ≤ ·)) (nonempty : points ≠ [])
    (le : value ≤ value') (falling : points.length / 2 ≤ segment points value) :
    level points value' ≤ level points value := by
  have below := segment_lt_length nonempty value'
  rcases Nat.lt_or_eq_of_le (segment_mono points le) with earlier | same
  · calc
      level points value' ≤ barIndex points.length (segment points value') :=
        (level_mem_of_falling (falling.trans earlier.le)).2
      _ ≤ barIndex points.length (following points.length (segment points value)) :=
        barIndex_cast_anti (falling.trans le_following) (following_le_of_lt earlier)
      _ ≤ level points value := (level_mem_of_falling falling).1
  · unfold level
    rw [same] at falling ⊢
    apply between_anti (barIndex_cast_anti falling le_following)
    exact fraction_mono (getD_mono sorted le_following (following_lt below)) le

theorem rounded_mono (n : Nat) : Monotone (rounded n) := by
  intro first second le
  unfold rounded
  apply min_le_min_right
  apply Nat.floor_mono
  gcongr

end Level

/-! ## Places of the line -/

/-- The value at a place between the first and the last point. -/
def place (points : List F64) (barWidth x : Nat) : F64 :=
  let first := points.getD 0 0
  let last := points.getD (points.length - 1) 0
  first + x / (barWidth - 1 : Nat) * if |last - first| < EPSILON then 1 else last - first

section Place

variable {points : List F64} {barWidth : Nat}

theorem valueAt_eq (nonempty : points ≠ []) (x : Nat) :
    valueAt points barWidth x = some (place points barWidth x) := by
  have below := List.length_pos_iff.mpr nonempty
  simp [valueAt, place, below]

theorem place_mono (sorted : points.Pairwise (· ≤ ·)) : Monotone (place points barWidth) := by
  intro x y le
  have range : 0 ≤ points.getD (points.length - 1) 0 - points.getD 0 0 := by
    rcases points with - | ⟨first, rest⟩
    · simp
    · exact sub_nonneg.mpr (getD_mono sorted (Nat.zero_le _) (by simp))
  simp only [place]
  split
  · gcongr
  · gcongr

/-- The bars rise up to a place of the line, and fall from it. -/
theorem rounded_hump (sorted : points.Pairwise (· ≤ ·)) (nonempty : points ≠ [])
    (barWidth count : Nat) :
    Hump (fun x => rounded points.length (level points (place points barWidth x))) count := by
  have segments : Monotone fun x => segment points (place points barWidth x) :=
    fun x y le => segment_mono points (place_mono sorted le)
  have levels : Hump (fun x => level points (place points barWidth x)) count := by
    apply Hump.of_position segments (points.length / 2)
    · intro x y le rising
      exact level_rises sorted (place_mono sorted le) rising
    · intro x y le falling
      exact level_falls sorted nonempty (place_mono sorted le) falling
  exact levels.comp (rounded_mono points.length)

end Place

/-! ## The line -/

section Closest

variable {barWidth : Nat} {distance : Nat → F64}

theorem closest_le : closest barWidth distance ≤ barWidth := by
  unfold closest
  cases found : (List.range barWidth).argmin distance with
  | none => exact Nat.div_le_self barWidth 2
  | some position => exact (List.mem_range.mp (List.argmin_mem found)).le

theorem closest_spec (distance : Nat → F64) {x : Nat} (below : x < barWidth) :
    closest barWidth distance < barWidth ∧
      distance (closest barWidth distance) ≤ distance x ∧
        (x < closest barWidth distance → distance (closest barWidth distance) < distance x) := by
  have index : ∀ y < barWidth, (List.range barWidth).idxOf y = y := by
    intro y inside
    have stands := (List.nodup_range (n := barWidth)).idxOf_getElem y (by simpa using inside)
    rwa [List.getElem_range] at stands
  unfold closest
  cases found : (List.range barWidth).argmin distance with
  | none =>
      rw [List.argmin_eq_none, List.range_eq_nil] at found
      omega
  | some position =>
      have member := List.mem_range.mpr below
      have inside := List.mem_range.mp (List.argmin_mem found)
      constructor
      · exact inside
      constructor
      · exact List.le_of_mem_argmin member found
      · intro before
        by_contra least
        have first := List.index_of_argmin found member (not_lt.mp least)
        rw [index x below, index position inside] at first
        exact absurd before (Nat.not_lt.mpr first)

end Closest

namespace Estimates

variable {T : Type} [DistributionValue T] {debug : T → List Char} {estimates : Estimates T}
  {width terminal : Option Nat}

theorem points_sorted : estimates.points.Pairwise (· ≤ ·) :=
  List.pairwise_mergeSort' _ _

omit [DistributionValue T] in
theorem le_barWidth (debug : T → List Char) (estimates : Estimates T)
    (width terminal : Option Nat) : 8 ≤ estimates.barWidth debug width terminal :=
  le_max_right _ _

theorem points_eq_nil : estimates.points = [] ↔
    ∀ q ∈ estimates.quantiles, ∀ p ∈ standard, ¬ near q.1 p := by
  unfold points
  rw [← List.length_eq_zero_iff, List.length_mergeSort, List.length_eq_zero_iff,
    List.filterMap_eq_nil_iff]
  simp

/-- The heights of the bars. -/
def heights (estimates : Estimates T) (barWidth : Nat) : List Nat :=
  (List.range barWidth).map fun x =>
    rounded estimates.points.length (level estimates.points (place estimates.points barWidth x))

/-- The place of the label of the median. -/
def medianPlace (estimates : Estimates T) (barWidth : Nat) : Nat :=
  estimates.p50Pos barWidth ((List.range barWidth).map (place estimates.points barWidth))

theorem visualize_eq (nonempty : estimates.points ≠ []) :
    estimates.visualize debug width terminal =
      some (estimates.compose debug
        ((estimates.heights (estimates.barWidth debug width terminal)).map bar)
        (estimates.medianPlace (estimates.barWidth debug width terminal))) := by
  have values : valueAt estimates.points (estimates.barWidth debug width terminal) =
      fun x => pure (place estimates.points (estimates.barWidth debug width terminal) x) :=
    funext fun x => valueAt_eq nonempty x
  have bars : height estimates.points =
      fun value => pure (rounded estimates.points.length (level estimates.points value)) :=
    funext fun value => height_eq nonempty
  simp only [visualize, values, bars, List.mapM_pure, pure_bind, heights, medianPlace,
    List.map_map, Function.comp_def]

/-- Without a quantile to draw there is no first point. -/
theorem visualize_none (debug : T → List Char) (width terminal : Option Nat)
    (empty : estimates.points = []) :
    estimates.visualize debug width terminal = none := by
  have least := le_barWidth debug estimates width terminal
  obtain ⟨more, enough⟩ := Nat.exists_eq_add_one.mpr (Nat.zero_lt_of_lt least)
  simp [visualize, enough, empty, List.range_succ_eq_map, valueAt]

omit [DistributionValue T] in
theorem byteLen_middle : byteLen (estimates.middle debug) = estimates.p50Len debug := by
  unfold middle p50Len
  cases estimates.p50Label debug with
  | none => rfl
  | some label =>
      have blank : ' '.utf8Size = 1 := rfl
      simp [byteLen, blank]
      omega

/-- The three labels, with the blanks around the one of the median. -/
def labels (estimates : Estimates T) (debug : T → List Char) : List Char :=
  estimates.minLabel debug ++ estimates.middle debug ++ estimates.maxLabel debug

omit [DistributionValue T] in
/-- The labels, the edges and the bars fill the space, when it holds eight bars. -/
theorem barWidth_fills : estimates.barWidth debug width terminal +
    byteLen (estimates.labels debug) + 4 =
      max (barSpace width terminal) (byteLen (estimates.labels debug) + 12) := by
  have bytes : byteLen (estimates.labels debug) = byteLen (estimates.minLabel debug) +
      estimates.p50Len debug + byteLen (estimates.maxLabel debug) := by
    rw [← byteLen_middle]
    simp [byteLen, labels, Nat.add_assoc]
  unfold barWidth
  omega

omit [DistributionValue T] in
theorem compose_length (bars : List Char) (position : Nat) :
    (estimates.compose debug bars position).length =
      (estimates.labels debug).length + bars.length + 4 := by
  simp only [compose, labels, List.length_append, List.length_cons, List.length_nil,
    List.length_take, List.length_drop]
  omega

omit [DistributionValue T] in
/-- The bars are read off the line, where the labels have none. -/
theorem compose_filter (free : ∀ c ∈ estimates.labels debug, c ∉ BARS) {heights : List Nat}
    (low : ∀ height ∈ heights, height ≤ maxBar) (position : Nat) :
    (estimates.compose debug (heights.map bar) position).filter (· ∈ BARS) =
      heights.map bar := by
  have isBar : ∀ c ∈ heights.map bar, c ∈ BARS := by
    intro c has
    obtain ⟨height, member, rfl⟩ := List.mem_map.mp has
    have below : height < BARS.length := Nat.lt_succ_of_le (low height member)
    rw [bar, List.getD_eq_getElem _ _ below]
    exact List.getElem_mem below
  have dropped : ∀ label : List Char, label ⊆ estimates.labels debug →
      label.filter (· ∈ BARS) = [] := by
    intro label within
    apply List.filter_eq_nil_iff.mpr
    intro c has
    simpa using free c (within has)
  have kept : ∀ part : List Char, part ⊆ heights.map bar → part.filter (· ∈ BARS) = part := by
    intro part within
    apply List.filter_eq_self.mpr
    intro c has
    simpa using isBar c (within has)
  have first := dropped (estimates.minLabel debug) (by simp [labels])
  have second := dropped (estimates.middle debug) (by simp [labels])
  have third := dropped (estimates.maxLabel debug) (by simp [labels])
  have edges : ([' ', '|'].filter (· ∈ BARS) : List Char) = [] ∧
      (['|', ' '].filter (· ∈ BARS) : List Char) = [] := by decide
  simp only [compose, List.filter_append, first, second, third, edges, List.nil_append,
    List.append_nil, kept _ (List.take_subset _ _), kept _ (List.drop_subset _ _),
    List.take_append_drop]

theorem medianPlace_le (barWidth : Nat) : estimates.medianPlace barWidth ≤ barWidth := by
  unfold medianPlace p50Pos
  split
  · exact closest_le
  · exact Nat.div_le_self barWidth 2

/-- The label of the median stands at the first of the places that are closest to it. -/
theorem medianPlace_closest {median : T} (has : estimates.quantileNear (1 / 2) = some median)
    {barWidth x : Nat} (below : x < barWidth) :
    let distance y := |place estimates.points barWidth y - toF64 median|
    distance (estimates.medianPlace barWidth) ≤ distance x ∧
      (x < estimates.medianPlace barWidth →
        distance (estimates.medianPlace barWidth) < distance x) := by
  intro distance
  have same : ∀ y < barWidth, |((List.range barWidth).map (place estimates.points barWidth)).getD
      y 0 - toF64 median| = distance y := by
    intro y inside
    simp [distance, inside]
  have found : estimates.medianPlace barWidth = closest barWidth fun i =>
      |((List.range barWidth).map (place estimates.points barWidth)).getD i 0 -
        toF64 median| := by
    simp only [medianPlace, p50Pos, has]
  obtain ⟨inside, spec⟩ := closest_spec (fun i =>
    |((List.range barWidth).map (place estimates.points barWidth)).getD i 0 - toF64 median|) below
  rw [← found] at inside spec
  simp only [same _ inside, same x below] at spec
  exact spec

/-- A line of bars between the labels. -/
structure Drawn (debug : T → List Char) (estimates : Estimates T) (width terminal : Option Nat)
    (heights : List Nat) (position : Nat) : Prop where
  enough : 8 ≤ heights.length
  low : ∀ height ∈ heights, height ≤ maxBar
  /-- The bars rise up to a place, and fall from it. -/
  hump : Hump (fun x => heights.getD x 0) heights.length
  placed : position ≤ heights.length
  /-- No other place has a value that is closer to the median, no earlier one as close. -/
  closest : ∀ median, estimates.quantileNear (1 / 2) = some median → ∀ x < heights.length,
    let distance y := |place estimates.points heights.length y - toF64 median|
    distance position ≤ distance x ∧ (x < position → distance position < distance x)
  /-- The bars take what the labels leave, but never less than eight places. -/
  fills : heights.length + byteLen (estimates.labels debug) + 4 =
    max (barSpace width terminal) (byteLen (estimates.labels debug) + 12)

theorem heights_drawn (debug : T → List Char) (width terminal : Option Nat)
    (nonempty : estimates.points ≠ []) :
    Drawn debug estimates width terminal
      (estimates.heights (estimates.barWidth debug width terminal))
      (estimates.medianPlace (estimates.barWidth debug width terminal)) := by
  have count : (estimates.heights (estimates.barWidth debug width terminal)).length =
      estimates.barWidth debug width terminal := by
    simp [heights]
  constructor
  case enough => exact count.symm ▸ le_barWidth debug estimates width terminal
  case low =>
    intro height has
    obtain ⟨x, _, rfl⟩ := List.mem_map.mp has
    exact min_le_right _ _
  case hump =>
    rw [count]
    have rounds := rounded_hump points_sorted nonempty
      (estimates.barWidth debug width terminal) (estimates.barWidth debug width terminal)
    refine rounds.congr fun x below => ?_
    simp [heights, below]
  case placed => exact count.symm ▸ medianPlace_le _
  case closest =>
    rw [count]
    intro median has x below
    exact medianPlace_closest has below
  case fills => exact count.symm ▸ barWidth_fills

end Estimates

end Schtest.Stats
