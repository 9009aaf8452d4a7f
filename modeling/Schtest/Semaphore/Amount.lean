import Schtest.Semaphore.Effect

/-!
# The amount as a natural number

The loop of `consume` and `produce` computes with wrapping 32-bit words.  As
long as the sum of amount and argument fits in a word, its test and its update
are the ones of natural numbers, and an admitted update stays within the bound.
-/

namespace Schtest.Semaphore

universe u

namespace Op

/-- The condition a call waits for, over the natural numbers. -/
def Admits (op : Op) (max v amount : Nat) : Prop :=
  match op with
  | .consume => v ≤ amount
  | .produce => amount + v ≤ max

/-- The amount after the call, over the natural numbers. -/
def result (op : Op) (v amount : Nat) : Nat :=
  match op with
  | .consume => amount - v
  | .produce => amount + v

instance (op : Op) (max v amount : Nat) : Decidable (op.Admits max v amount) := by
  cases op <;> exact Nat.decLe _ _

theorem admits_iff {op : Op} {max v amount : U32} (fits : amount.toNat + v.toNat < 2 ^ 32) :
    op.admits max v amount = true ↔ op.Admits max.toNat v.toNat amount.toNat := by
  cases op with
  | consume => simp [admits, Admits, BitVec.le_def]
  | produce =>
      rw [admits, decide_eq_true_iff, BitVec.le_def, BitVec.toNat_add, Nat.mod_eq_of_lt fits]
      rfl

theorem apply_toNat {op : Op} {max v amount : U32} (fits : amount.toNat + v.toNat < 2 ^ 32)
    (admitted : op.admits max v amount = true) :
    (op.apply v amount).toNat = op.result v.toNat amount.toNat := by
  cases op with
  | consume =>
      have enough : v ≤ amount := by simpa [admits] using admitted
      simpa [apply, result] using BitVec.toNat_sub_of_le enough
  | produce =>
      rw [apply, BitVec.toNat_add, Nat.mod_eq_of_lt fits]
      rfl

theorem result_le {op : Op} {max v amount : Nat} (bounded : amount ≤ max)
    (admitted : op.Admits max v amount) : op.result v amount ≤ max := by
  cases op with
  | consume => exact (Nat.sub_le _ _).trans bounded
  | produce => exact admitted

end Op

/-- An amount and a 31-bit argument add up without overflow. -/
theorem amountOf_add_lt (cur : U32) {v : U32} (small : v.toNat ≤ 0x7fffffff) :
    (amountOf cur).toNat + v.toNat < 2 ^ 32 := by
  have amountSmall := amountOf_lt cur
  omega

/-- The value of an admitted exchange is computed without overflow and fits in
31 bits, so that no carry reaches the flag. -/
theorem commit_spec {op : Op} {max v cur : U32} (maxSmall : max.toNat < 2 ^ 31)
    (small : v.toNat ≤ 0x7fffffff) (admitted : op.admits max v (amountOf cur) = true) :
    (op.apply v (amountOf cur)).toNat = op.result v.toNat (amountOf cur).toNat ∧
      hasWaiter (op.apply v (amountOf cur)) = false ∧
      amountOf (op.apply v (amountOf cur)) = op.apply v (amountOf cur) := by
  have fits := amountOf_add_lt cur small
  have stored := Op.apply_toNat fits admitted
  have word : (op.apply v (amountOf cur)).toNat < 2 ^ 31 := by
    have enough := (Op.admits_iff fits).mp admitted
    have amountSmall := amountOf_lt cur
    rw [stored]
    cases op with
    | consume => exact (Nat.sub_le _ _).trans_lt amountSmall
    | produce => exact lt_of_le_of_lt enough maxSmall
  exact ⟨stored, hasWaiter_of_lt word, amountOf_of_lt word⟩

end Schtest.Semaphore
