import Mathlib.Data.Nat.Bitwise

/-!
# Layouts and alignment

The mask arithmetic of `BumpAllocator::alloc` on 64-bit words, and when it
computes what it means: the least multiple of the alignment from a position on.
-/

namespace Schtest.Shared

/-- A `usize` value. -/
abbrev U64 := BitVec 64

/-- `isize::MAX`, which is also `i64::MAX`. -/
def ISIZE_MAX : Nat := 2 ^ 63 - 1

/-- The least multiple of `align` from `n` on. -/
def roundUp (n align : Nat) : Nat :=
  (n + align - 1) / align * align

theorem le_roundUp {align : Nat} (positive : 0 < align) (n : Nat) : n ≤ roundUp n align := by
  unfold roundUp
  have division := Nat.div_add_mod (n + align - 1) align
  have remainder := Nat.mod_lt (n + align - 1) positive
  rw [Nat.mul_comm] at division
  omega

theorem dvd_roundUp (n align : Nat) : align ∣ roundUp n align :=
  Nat.dvd_mul_left _ _

/-- No multiple of the alignment lies between a position and its rounding. -/
theorem roundUp_le {n align bound : Nat} (positive : 0 < align) (below : n ≤ bound)
    (multiple : align ∣ bound) : roundUp n align ≤ bound := by
  obtain ⟨factor, rfl⟩ := multiple
  rw [roundUp, Nat.mul_comm align]
  apply Nat.mul_le_mul_right
  rw [← Nat.lt_succ_iff, Nat.div_lt_iff_lt_mul positive, Nat.succ_mul, Nat.mul_comm factor]
  omega

/-- A valid `std::alloc::Layout`. -/
structure Layout where
  size : U64
  align : U64
  power : ∃ k, align.toNat = 2 ^ k
  fits : roundUp size.toNat align.toNat ≤ ISIZE_MAX

theorem Layout.align_pos (layout : Layout) : 0 < layout.align.toNat := by
  obtain ⟨k, power⟩ := layout.power
  rw [power]
  exact Nat.two_pow_pos k

/-- An alignment divides `2 ^ 63`. -/
theorem Layout.align_dvd (layout : Layout) : layout.align.toNat ∣ 2 ^ 63 := by
  obtain ⟨k, power⟩ := layout.power
  have small := layout.align.isLt
  rw [power] at small ⊢
  exact Nat.pow_dvd_pow 2 (Nat.le_of_lt_succ (Nat.pow_lt_pow_iff_right (by decide) |>.mp small))

theorem Layout.align_le (layout : Layout) : layout.align.toNat ≤ 2 ^ 63 :=
  Nat.le_of_dvd (by decide) layout.align_dvd

theorem Layout.size_le (layout : Layout) : layout.size.toNat ≤ ISIZE_MAX :=
  (le_roundUp layout.align_pos _).trans layout.fits

/-- `(current + align - 1) & !(align - 1)`. -/
def alignUp (current align : U64) : U64 :=
  (current + align - 1) &&& ~~~(align - 1)

/-- Masking with the complement of `2 ^ k - 1` clears the low `k` bits. -/
theorem toNat_and_not {word low : U64} {k : Nat} (mask : low.toNat = 2 ^ k - 1) :
    (word &&& ~~~low).toNat = word.toNat / 2 ^ k * 2 ^ k := by
  apply Nat.eq_of_testBit_eq
  intro i
  rw [Nat.testBit_mul_two_pow, Nat.testBit_div_two_pow, BitVec.testBit_toNat, BitVec.getLsbD_and,
    BitVec.getLsbD_not, ← BitVec.testBit_toNat low, mask, Nat.testBit_two_pow_sub_one]
  by_cases high : k ≤ i
  · rw [Nat.sub_add_cancel high, BitVec.testBit_toNat]
    have outside : ¬ i < k := by omega
    by_cases inside : i < 64
    · simp [high, outside, inside]
    · simp [BitVec.getLsbD_of_ge word i (by omega)]
  · have low_ : i < k := by omega
    simp [high, low_]

/-- Where the addition does not wrap, the mask arithmetic rounds up. -/
theorem alignUp_toNat_of_lt {current align : U64} (power : ∃ k, align.toNat = 2 ^ k)
    (fits : current.toNat + align.toNat < 2 ^ 64) :
    (alignUp current align).toNat = roundUp current.toNat align.toNat := by
  obtain ⟨k, power⟩ := power
  have positive : 0 < align.toNat := power ▸ Nat.two_pow_pos k
  have one : (1 : U64).toNat = 1 := rfl
  have sum : (current + align).toNat = current.toNat + align.toNat :=
    BitVec.toNat_add_of_lt fits
  have low : (align - 1).toNat = 2 ^ k - 1 := by
    rw [BitVec.toNat_sub_of_le (by rw [BitVec.le_def]; omega), power, one]
  rw [alignUp, toNat_and_not low, BitVec.toNat_sub_of_le (by rw [BitVec.le_def, sum]; omega), sum,
    roundUp, power, one]

/-- Below `2 ^ 63` the mask arithmetic does not wrap and rounds up. -/
theorem Layout.alignUp_toNat (layout : Layout) {current : U64}
    (bounded : current.toNat ≤ ISIZE_MAX) :
    (current + layout.align).toNat = current.toNat + layout.align.toNat ∧
      (alignUp current layout.align).toNat = roundUp current.toNat layout.align.toNat := by
  have small := layout.align_le
  unfold ISIZE_MAX at bounded
  have fits : current.toNat + layout.align.toNat < 2 ^ 64 := by omega
  constructor
  · exact BitVec.toNat_add_of_lt fits
  · exact alignUp_toNat_of_lt layout.power fits

/-- The end of an aligned block does not wrap. -/
theorem Layout.alignUp_add_size (layout : Layout) {current : U64}
    (bounded : current.toNat ≤ ISIZE_MAX) :
    (alignUp current layout.align + layout.size).toNat =
      (alignUp current layout.align).toNat + layout.size.toNat := by
  have position : (alignUp current layout.align).toNat ≤ 2 ^ 63 := by
    rw [(layout.alignUp_toNat bounded).2]
    unfold ISIZE_MAX at bounded
    exact roundUp_le layout.align_pos (by omega) layout.align_dvd
  have size := layout.size_le
  unfold ISIZE_MAX at size
  rw [BitVec.toNat_add, Nat.mod_eq_of_lt (by omega)]

end Schtest.Shared
