import Mathlib.Algebra.Order.Field.Basic
import Mathlib.Order.Monotone.Defs
import Mathlib.Tactic.GCongr
import Mathlib.Tactic.Positivity

/-!
# Humps

A sequence that rises up to a peak and falls from it.  Such is a line through nodes
whose levels rise up to a node and fall from it, whatever the distances between the
nodes are.
-/

namespace Schtest.Numeric

universe u v

/-- The first terms rise up to a peak, and fall from it. -/
def Hump {α : Type u} [Preorder α] (terms : Nat → α) (count : Nat) : Prop :=
  ∃ peak ≤ count, (∀ x y, x ≤ y → y < peak → terms x ≤ terms y) ∧
    ∀ x y, peak ≤ x → x ≤ y → y < count → terms y ≤ terms x

section Hump

variable {α : Type u} {β : Type v} [Preorder α] [Preorder β] {terms : Nat → α} {count : Nat}

theorem Hump.comp (hump : Hump terms count) {f : α → β} (mono : Monotone f) :
    Hump (f ∘ terms) count := by
  obtain ⟨peak, bounded, rises, falls⟩ := hump
  exact ⟨peak, bounded, fun x y le before => mono (rises x y le before),
    fun x y after le below => mono (falls x y after le below)⟩

theorem Hump.congr (hump : Hump terms count) {terms' : Nat → α}
    (same : ∀ x < count, terms' x = terms x) : Hump terms' count := by
  obtain ⟨peak, bounded, rises, falls⟩ := hump
  refine ⟨peak, bounded, fun x y le before => ?_, fun x y after le below => ?_⟩
  · rw [same x (by omega), same y (by omega)]
    exact rises x y le before
  · rw [same x (by omega), same y below]
    exact falls x y after le below

/-- Where the positions of the terms do not decrease, they pass a centre once. -/
theorem Hump.of_position {position : Nat → Nat} (mono : Monotone position) (centre : Nat)
    (rises : ∀ x y, x ≤ y → position y < centre → terms x ≤ terms y)
    (falls : ∀ x y, x ≤ y → centre ≤ position x → terms y ≤ terms x) (count : Nat) :
    Hump terms count := by
  have split : ∃ peak ≤ count, (∀ x, x < peak → position x < centre) ∧
      ∀ x, peak ≤ x → x < count → centre ≤ position x := by
    induction count with
    | zero => exact ⟨0, Nat.le_refl 0, by simp, by simp⟩
    | succ count ih =>
        obtain ⟨peak, bounded, before, after⟩ := ih
        by_cases passed : position count < centre
        · refine ⟨count + 1, Nat.le_refl _, fun x below => ?_, by omega⟩
          exact Nat.lt_of_le_of_lt (mono (Nat.le_of_lt_succ below)) passed
        · refine ⟨peak, Nat.le_succ_of_le bounded, before, fun x above below => ?_⟩
          rcases Nat.lt_succ_iff_lt_or_eq.mp below with earlier | rfl
          · exact after x above earlier
          · exact Nat.le_of_not_lt passed
  obtain ⟨peak, bounded, before, after⟩ := split
  refine ⟨peak, bounded, fun x y le below => rises x y le (before y below), ?_⟩
  intro x y above le below
  exact falls x y le (after x above (Nat.lt_of_le_of_lt le below))

end Hump

/-! ## Levels -/

/-- The way from one level to another. -/
def between {F : Type u} [Field F] (first second t : F) : F :=
  first + (second - first) * t

@[simp]
theorem between_zero {F : Type u} [Field F] (first second : F) :
    between first second 0 = first := by
  simp [between]

@[simp]
theorem between_one {F : Type u} [Field F] (first second : F) :
    between first second 1 = second := by
  simp [between]

section Between

variable {F : Type u} [Field F] [LinearOrder F] [IsStrictOrderedRing F] {first second t t' : F}

theorem between_mono (ordered : first ≤ second) (le : t ≤ t') :
    between first second t ≤ between first second t' := by
  unfold between
  have rise : 0 ≤ second - first := sub_nonneg.mpr ordered
  gcongr

theorem between_anti (ordered : second ≤ first) (le : t ≤ t') :
    between first second t' ≤ between first second t := by
  unfold between
  have fall : second - first ≤ 0 := sub_nonpos.mpr ordered
  have scaled := mul_le_mul_of_nonpos_left le fall
  exact add_le_add_right scaled first

/-- A level between the two. -/
theorem between_mem_of_le (ordered : first ≤ second) (low : 0 ≤ t) (high : t ≤ 1) :
    first ≤ between first second t ∧ between first second t ≤ second := by
  constructor
  · simpa using between_mono ordered low
  · simpa using between_mono ordered high

theorem between_mem_of_ge (ordered : second ≤ first) (low : 0 ≤ t) (high : t ≤ 1) :
    second ≤ between first second t ∧ between first second t ≤ first := by
  constructor
  · simpa using between_anti ordered high
  · simpa using between_anti ordered low

end Between

end Schtest.Numeric
