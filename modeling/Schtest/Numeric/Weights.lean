import Mathlib.Algebra.BigOperators.Field
import Mathlib.Algebra.BigOperators.Intervals
import Mathlib.Algebra.Order.BigOperators.Group.Finset
import Mathlib.Tactic.Linarith

/-!
# Weights from positions

Increasing positions in the unit interval are cut apart halfway between
neighbours.  The pieces have positive widths that add up to one, so they weigh a
mean, which vanishes exactly when every value does.
-/

namespace Schtest.Numeric

universe u

open Finset

variable {F : Type u} [Field F] [LinearOrder F] [IsStrictOrderedRing F]

/-- The left end of the piece around a position; that of the next one after the last. -/
def cut (position : Nat → F) (count index : Nat) : F :=
  if index = 0 then 0
  else if index = count then 1
  else (position (index - 1) + position index) / 2

omit [LinearOrder F] [IsStrictOrderedRing F] in
/-- The widths of the pieces add up to one. -/
theorem sum_cut_sub (position : Nat → F) {count : Nat} (positive : 0 < count) :
    ∑ index ∈ range count, (cut position count (index + 1) - cut position count index) = 1 := by
  rw [sum_range_sub, cut, if_neg positive.ne', if_pos rfl, cut, if_pos rfl, sub_zero]

/-- Every piece has a width. -/
theorem cut_lt_cut {position : Nat → F} {count index : Nat}
    (increasing : ∀ i, i + 1 < count → position i < position (i + 1))
    (unit : ∀ i < count, 0 ≤ position i ∧ position i ≤ 1) (inside : index < count) :
    cut position count index < cut position count (index + 1) := by
  have here := unit index inside
  have earlier (later : index ≠ 0) : position (index - 1) < position index := by
    have before := increasing (index - 1) (by omega)
    rwa [Nat.sub_add_cancel (Nat.pos_of_ne_zero later)] at before
  unfold cut
  rw [if_neg (Nat.succ_ne_zero index)]
  by_cases last : index + 1 = count
  · rw [if_pos last]
    by_cases first : index = 0
    · rw [if_pos first]
      exact zero_lt_one
    · have before := earlier first
      rw [if_neg first, if_neg inside.ne]
      linarith
  · have next := increasing index (by omega)
    rw [if_neg last, Nat.add_sub_cancel]
    by_cases first : index = 0
    · rw [if_pos first]
      linarith
    · have before := earlier first
      rw [if_neg first, if_neg inside.ne]
      linarith

/-! ## Means -/

variable {weight value : Nat → F} {count : Nat}

theorem mean_nonneg (weights : ∀ i < count, 0 < weight i) (values : ∀ i < count, 0 ≤ value i) :
    0 ≤ ∑ i ∈ range count, weight i * value i := by
  apply sum_nonneg
  intro i member
  have inside := mem_range.mp member
  exact mul_nonneg (weights i inside).le (values i inside)

/-- A mean is at most a bound on the values. -/
theorem mean_le {bound : F} (weights : ∀ i < count, 0 < weight i)
    (total : ∑ i ∈ range count, weight i = 1) (values : ∀ i < count, value i ≤ bound) :
    ∑ i ∈ range count, weight i * value i ≤ bound := by
  calc
    ∑ i ∈ range count, weight i * value i ≤ ∑ i ∈ range count, weight i * bound := by
      apply sum_le_sum
      intro i member
      have inside := mem_range.mp member
      exact mul_le_mul_of_nonneg_left (values i inside) (weights i inside).le
    _ = bound := by rw [← sum_mul, total, one_mul]

/-- A mean of values that are not negative vanishes only when all of them do. -/
theorem mean_eq_zero_iff (weights : ∀ i < count, 0 < weight i)
    (values : ∀ i < count, 0 ≤ value i) :
    ∑ i ∈ range count, weight i * value i = 0 ↔ ∀ i < count, value i = 0 := by
  have nonneg : ∀ i ∈ range count, 0 ≤ weight i * value i := by
    intro i member
    have inside := mem_range.mp member
    exact mul_nonneg (weights i inside).le (values i inside)
  rw [sum_eq_zero_iff_of_nonneg nonneg]
  constructor
  · intro all i inside
    have zero := all i (mem_range.mpr inside)
    exact (mul_eq_zero.mp zero).resolve_left (weights i inside).ne'
  · intro all i member
    rw [all i (mem_range.mp member), mul_zero]

end Schtest.Numeric
