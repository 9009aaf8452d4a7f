import Mathlib.Logic.Equiv.Basic
import Mathlib.Order.CompletePartialOrder
import Mathlib.Order.Interval.Set.Disjoint

/-!
# Separate regions

A family of regions of a memory that do not overlap: its owners claim new
addresses and hand their regions over, and a write to one region leaves the
others as they are.
-/

namespace Schtest.Collections

universe u v w

variable {κ : Type u} {α : Type v} {β : Type w} {region : κ → Set α}

/-- No two owners share an address. -/
def Separate (region : κ → Set α) : Prop :=
  Pairwise fun owner other => Disjoint (region owner) (region other)

/-- An owner takes addresses that no other owner has. -/
theorem Separate.claim [DecidableEq κ] (separate : Separate region) {owner : κ} {new : Set α}
    (unclaimed : ∀ other ≠ owner, Disjoint new (region other)) :
    Separate (Function.update region owner new) := by
  intro a b different
  by_cases first : a = owner
  · subst first
    rw [Function.update_self, Function.update_of_ne different.symm]
    exact unclaimed b different.symm
  · rw [Function.update_of_ne first]
    by_cases second : b = owner
    · subst second
      rw [Function.update_self]
      exact (unclaimed a first).symm
    · rw [Function.update_of_ne second]
      exact separate different

/-- Two owners exchange their regions. -/
theorem Separate.swap [DecidableEq κ] (separate : Separate region) (a b : κ) :
    Separate (region ∘ Equiv.swap a b) :=
  separate.comp_of_injective (Equiv.swap a b).injective

/-- A write to one region is not seen in another. -/
theorem Separate.update_eq [DecidableEq α] (separate : Separate region) {owner other : κ}
    (different : other ≠ owner) {address place : α} (own : address ∈ region owner)
    (elsewhere : place ∈ region other) (memory : α → β) (value : β) :
    Function.update memory address value place = memory place := by
  have apart : place ≠ address :=
    (separate different).ne_of_mem elsewhere own
  exact Function.update_of_ne apart value memory

end Schtest.Collections
