import Mathlib.Algebra.BigOperators.Fin
import Mathlib.Algebra.BigOperators.Field
import Mathlib.Algebra.Order.Field.Rat
import Mathlib.Data.Finset.Density
import Mathlib.Data.Fin.Tuple.Basic

/-!
# Uniform probabilities

The probability of an event when all outcomes of a finite space are equally
likely, as an exact rational.  A sequence of independent uniform draws is a
uniform function on `Fin n`, and is built up one draw at a time.
-/

namespace Schtest.Probability

open Finset

universe u v

variable {Ω : Type u} [Fintype Ω]

/-- The share of the outcomes that belong to the event. -/
def probability (event : Ω → Prop) [DecidablePred event] : ℚ≥0 :=
  (univ.filter event).dens

theorem probability_eq (event : Ω → Prop) [DecidablePred event] :
    probability event = ((univ.filter event).card : ℚ≥0) / Fintype.card Ω :=
  rfl

theorem probability_congr {event event' : Ω → Prop} [DecidablePred event] [DecidablePred event']
    (same : ∀ ω, event ω ↔ event' ω) : probability event = probability event' := by
  rw [probability, probability, filter_congr fun ω _ => same ω]

/-- An event that does not depend on the outcome. -/
theorem probability_const [Nonempty Ω] (event : Prop) [Decidable event] :
    probability (fun _ : Ω => event) = if event then 1 else 0 := by
  split
  · rename_i holds
    simp [probability, holds]
  · rename_i fails
    simp [probability, fails]

/-- Probabilities of mutually exclusive events add up. -/
theorem probability_exists {κ : Type v} [Fintype κ] {event : κ → Ω → Prop}
    [∀ k, DecidablePred (event k)] [DecidablePred fun ω => ∃ k, event k ω]
    (exclusive : ∀ ω k k', event k ω → event k' ω → k = k') :
    probability (fun ω => ∃ k, event k ω) = ∑ k, probability (event k) := by
  classical
  have union : univ.filter (fun ω => ∃ k, event k ω) =
      univ.biUnion fun k => univ.filter (event k) := by
    ext ω
    simp
  have disjoint : ∀ k ∈ (univ : Finset κ), ∀ k' ∈ (univ : Finset κ), k ≠ k' →
      Disjoint (univ.filter (event k)) (univ.filter (event k')) := by
    intro k _ k' _ different
    rw [disjoint_filter]
    exact fun ω _ here there => different (exclusive ω k k' here there)
  simp only [probability_eq]
  rw [union, card_biUnion disjoint, Nat.cast_sum, sum_div]

/-- The last draw is independent of the ones before it. -/
theorem probability_snoc {α : Type v} [Fintype α] {n : ℕ} (first : (Fin n → α) → Prop)
    (last : α → Prop) [DecidablePred first] [DecidablePred last] :
    probability (fun draws : Fin (n + 1) → α =>
      first (Fin.init draws) ∧ last (draws (Fin.last n))) =
        probability first * probability last := by
  have split : (univ.filter fun draws : Fin (n + 1) → α =>
      first (Fin.init draws) ∧ last (draws (Fin.last n))).card =
        (univ.filter last ×ˢ univ.filter first).card := by
    apply card_equiv (Fin.snocEquiv fun _ => α).symm
    intro draws
    simp [Fin.snocEquiv, and_comm]
  rw [probability_eq, probability_eq, probability_eq, split, card_product,
    ← Fintype.card_congr (Fin.snocEquiv fun _ : Fin (n + 1) => α), Fintype.card_prod]
  push_cast
  rw [mul_comm ((univ.filter first).card / _ : ℚ≥0), div_mul_div_comm]

/-- A uniform draw takes each value equally often. -/
theorem probability_eq_value [DecidableEq Ω] (value : Ω) :
    probability (fun ω => value = ω) = 1 / Fintype.card Ω := by
  simp [probability_eq, filter_eq]

theorem probability_ne_value [DecidableEq Ω] (value : Ω) :
    probability (fun ω => ω ≠ value) = (Fintype.card Ω - 1 : ℕ) / Fintype.card Ω := by
  rw [probability_eq, filter_ne', card_erase_of_mem (mem_univ _), card_univ]

end Schtest.Probability
