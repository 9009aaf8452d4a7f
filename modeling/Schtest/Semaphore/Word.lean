import Mathlib.Data.Nat.Bitwise

/-!
# The count word

A semaphore packs the available amount and the `WAITER` flag into one `u32`:
the flag is the top bit and the amount is the remaining 31 bits.
-/

namespace Schtest.Semaphore

/-- A `u32` value. -/
abbrev U32 := BitVec 32

/-- The flag saying that some thread may be asleep on the word. -/
def WAITER : U32 := 0x80000000#32

/-- `cur & !Self::WAITER`. -/
def amountOf (cur : U32) : U32 :=
  cur &&& ~~~WAITER

/-- `(cur & Self::WAITER) == Self::WAITER`. -/
def hasWaiter (cur : U32) : Bool :=
  (cur &&& WAITER) == WAITER

/-- `cur | Self::WAITER`. -/
def withWaiter (cur : U32) : U32 :=
  cur ||| WAITER

/-- The amount is the word without its top bit. -/
theorem amountOf_toNat (cur : U32) : (amountOf cur).toNat = cur.toNat % 2 ^ 31 := by
  have mask : (~~~WAITER).toNat = 2 ^ 31 - 1 := by decide
  rw [amountOf, BitVec.toNat_and, mask, Nat.and_two_pow_sub_one_eq_mod]

/-- The flag is the top bit of the word. -/
theorem hasWaiter_eq_msb (cur : U32) : hasWaiter cur = cur.msb := by
  have flag : WAITER = BitVec.twoPow 32 31 := by decide
  rw [hasWaiter, flag, BitVec.and_twoPow, BitVec.msb_eq_getLsbD_last]
  cases cur.getLsbD (32 - 1) <;> decide

theorem hasWaiter_iff (cur : U32) : hasWaiter cur = true ↔ 2 ^ 31 ≤ cur.toNat := by
  rw [hasWaiter_eq_msb, BitVec.msb_eq_decide]
  simp

theorem amountOf_lt (cur : U32) : (amountOf cur).toNat < 2 ^ 31 := by
  rw [amountOf_toNat]
  exact Nat.mod_lt _ (by decide)

@[simp]
theorem amountOf_withWaiter (cur : U32) : amountOf (withWaiter cur) = amountOf cur := by
  have cancel : WAITER &&& ~~~WAITER = 0#32 := by decide
  rw [amountOf, withWaiter, BitVec.and_comm, BitVec.and_or_distrib_left,
    BitVec.and_comm _ WAITER, cancel, BitVec.or_zero, BitVec.and_comm, amountOf]

@[simp]
theorem hasWaiter_withWaiter (cur : U32) : hasWaiter (withWaiter cur) = true := by
  have flag : WAITER.msb = true := by decide
  rw [hasWaiter_eq_msb, withWaiter, BitVec.msb_or, flag, Bool.or_true]

/-- A value that fits in 31 bits is its own amount. -/
theorem amountOf_of_lt {word : U32} (small : word.toNat < 2 ^ 31) : amountOf word = word := by
  apply BitVec.eq_of_toNat_eq
  rw [amountOf_toNat, Nat.mod_eq_of_lt small]

/-- A value that fits in 31 bits does not carry the flag. -/
theorem hasWaiter_of_lt {word : U32} (small : word.toNat < 2 ^ 31) : hasWaiter word = false := by
  rw [Bool.eq_false_iff, Ne, hasWaiter_iff]
  omega

end Schtest.Semaphore
