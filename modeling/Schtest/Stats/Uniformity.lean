import Schtest.Stats.Reservoir
import Mathlib.Algebra.BigOperators.Intervals
import Mathlib.Data.Nat.GCD.Basic
import Mathlib.Tactic.NormNum
import Mathlib.Tactic.Ring

/-!
# How likely an item is retained

Once the reservoir is full every call overwrites a random slot, so that an item
survives a later call with probability `(N - 1) / N` whatever the number of
items; the documented `N / count` is met by coincidence only.  All
probabilities are exact, over independent uniform draws, and for every number
of calls, the ones after the counter has wrapped included.
-/

namespace Schtest.Stats.ReservoirSampler

open Schtest.Probability Finset

variable {N : Nat}

/-! ## One call -/

theorem probability_slot_eq (n : Nat) (place : Fin N) :
    probability (fun draw => slot n draw = place) =
      if n % USIZE < N then (if n % USIZE = place.val then 1 else 0) else 1 / (N : ℚ≥0) := by
  have : Nonempty (Fin N) := ⟨place⟩
  split
  · rename_i room
    simp only [slot_of_lt room]
    rw [probability_const]
    simp only [Fin.ext_iff]
  · rename_i full
    simp only [slot_of_ge full]
    rw [probability_congr fun _ => eq_comm, probability_eq_value, Fintype.card_fin]

theorem probability_slot_ne (n : Nat) (place : Fin N) :
    probability (fun draw => slot n draw ≠ place) =
      if n % USIZE < N then (if n % USIZE = place.val then 0 else 1)
      else ((N - 1 : ℕ) : ℚ≥0) / N := by
  have : Nonempty (Fin N) := ⟨place⟩
  split
  · rename_i room
    simp only [slot_of_lt room]
    rw [probability_const]
    simp only [ne_eq, Fin.ext_iff, ite_not]
  · rename_i full
    simp only [slot_of_ge full]
    rw [probability_ne_value, Fintype.card_fin]

/-! ## All calls -/

/-- The item number `i` is in this slot of a new reservoir after `n` calls. -/
def Sits (i n : Nat) (place : Fin N) (draws : Fin n → Fin N) : Prop :=
  ((new : ReservoirSampler Nat N).reset.sampleAll (· + 1) n draws).samples place = some i

instance (i n : Nat) (place : Fin N) : DecidablePred (Sits i n place) :=
  fun _ => inferInstanceAs (Decidable (_ = _))

/-- The call that brings the item puts it into its slot. -/
theorem sits_self (n : Nat) (place : Fin N) (draws : Fin (n + 1) → Fin N) :
    Sits (n + 1) (n + 1) place draws ↔ slot n (draws (Fin.last n)) = place := by
  rw [Sits, sampleAll_samples_succ]
  by_cases here : slot n (draws (Fin.last n)) = place
  · simp [here]
  · rw [Function.update_of_ne (Ne.symm here)]
    refine iff_of_false ?_ here
    intro holds
    exact absurd (sampleAll_samples_le holds) (by omega)

/-- A later call keeps the item unless it writes the same slot. -/
theorem sits_succ {i n : Nat} (earlier : i ≤ n) (place : Fin N) (draws : Fin (n + 1) → Fin N) :
    Sits i (n + 1) place draws ↔
      Sits i n place (Fin.init draws) ∧ slot n (draws (Fin.last n)) ≠ place := by
  rw [Sits, sampleAll_samples_succ]
  by_cases here : slot n (draws (Fin.last n)) = place
  · simp only [here, Function.update_self, ne_eq, not_true_eq_false, and_false, iff_false]
    intro same
    have later : n + 1 = i := Option.some.inj same
    omega
  · rw [Function.update_of_ne (Ne.symm here)]
    simp [Sits, here]

/-- An item sits in one slot only. -/
theorem sits_unique {i n : Nat} {place other : Fin N} {draws : Fin n → Fin N}
    (here : Sits i n place draws) (there : Sits i n other draws) : place = other := by
  induction n with
  | zero => contradiction
  | succ n ih =>
      by_cases earlier : i ≤ n
      · rw [sits_succ earlier] at here there
        exact ih here.1 there.1
      · obtain rfl : i = n + 1 := by
          have bound : i ≤ n + 1 := sampleAll_samples_le here
          omega
        rw [sits_self] at here there
        exact here.symm.trans there

/-- The item is drawn into the slot, and every later call misses it. -/
theorem probability_sits {i n : Nat} (start : 1 ≤ i) (called : i ≤ n) (place : Fin N) :
    probability (Sits i n place) =
      probability (fun draw => slot (i - 1) draw = place) *
        ∏ j ∈ Ico i n, probability (fun draw => slot j draw ≠ place) := by
  induction n, called using Nat.le_induction with
  | base =>
      obtain ⟨k, rfl⟩ : ∃ k, i = k + 1 := ⟨i - 1, by omega⟩
      have : Nonempty (Fin N) := ⟨place⟩
      calc probability (Sits (k + 1) (k + 1) place)
          = probability (fun draws : Fin (k + 1) → Fin N =>
              True ∧ slot k (draws (Fin.last k)) = place) :=
            probability_congr fun draws => by rw [sits_self, true_and]
        _ = probability (fun _ : Fin k → Fin N => True) *
              probability (fun draw => slot k draw = place) :=
            probability_snoc (fun _ => True) fun draw => slot k draw = place
        _ = _ := by simp [probability_const]
  | succ n called ih =>
      calc probability (Sits i (n + 1) place)
          = probability (fun draws : Fin (n + 1) → Fin N =>
              Sits i n place (Fin.init draws) ∧ slot n (draws (Fin.last n)) ≠ place) :=
            probability_congr (sits_succ called place)
        _ = probability (Sits i n place) * probability (fun draw => slot n draw ≠ place) :=
            probability_snoc (Sits i n place) fun draw => slot n draw ≠ place
        _ = _ := by rw [ih, prod_Ico_succ_top called, mul_assoc]

/-! ## The probability of being retained -/

/-- A later call fills the slot, whatever is drawn. -/
def Overwritten (i n place : Nat) : Prop :=
  ∃ j ∈ Ico i n, j % USIZE = place

instance (i n place : Nat) : Decidable (Overwritten i n place) :=
  inferInstanceAs (Decidable (∃ j ∈ Ico i n, j % USIZE = place))

/-- Later calls that find the reservoir full and overwrite a random slot. -/
def redraws (N i n : Nat) : Nat :=
  ((Ico i n).filter fun j => ¬ j % USIZE < N).card

/-- The number of slots, out of `N`, in which the item number `i` may start
without being overwritten by a later call that fills its slot. -/
def survivors (N i n : Nat) : Nat :=
  if (i - 1) % USIZE < N then (if Overwritten i n ((i - 1) % USIZE) then 0 else N)
  else (univ.filter fun place : Fin N => ¬ Overwritten i n place).card

theorem prod_probability_slot_ne (i n : Nat) (place : Fin N) :
    ∏ j ∈ Ico i n, probability (fun draw => slot j draw ≠ place) =
      if Overwritten i n place then 0 else (((N - 1 : ℕ) : ℚ≥0) / N) ^ redraws N i n := by
  simp only [probability_slot_ne]
  split
  · rename_i overwritten
    obtain ⟨j, later, here⟩ := overwritten
    apply prod_eq_zero later
    rw [if_pos (here ▸ place.isLt), if_pos here]
  · rename_i kept
    rw [redraws, ← prod_const, prod_filter]
    refine prod_congr rfl fun j later => ?_
    by_cases room : j % USIZE < N
    · have elsewhere : j % USIZE ≠ place.val := fun here => kept ⟨j, later, here⟩
      simp [room, elsewhere]
    · simp [room]

/-- The exact probability that an item is retained. -/
theorem probability_retains {i n : Nat} (start : 1 ≤ i) (called : i ≤ n) (positive : 0 < N) :
    probability (fun draws : Fin n → Fin N =>
      ((new : ReservoirSampler Nat N).reset.sampleAll (· + 1) n draws).Retains i) =
        survivors N i n / N * (((N - 1 : ℕ) : ℚ≥0) / N) ^ redraws N i n := by
  have slots : ∀ place : Fin N, probability (Sits i n place) =
      (if (i - 1) % USIZE < N then (if (i - 1) % USIZE = place.val then 1 else 0)
        else 1 / (N : ℚ≥0)) *
      if Overwritten i n place then 0 else (((N - 1 : ℕ) : ℚ≥0) / N) ^ redraws N i n := by
    intro place
    rw [probability_sits start called, probability_slot_eq, prod_probability_slot_ne]
  have whole : (N : ℚ≥0) ≠ 0 := by exact_mod_cast positive.ne'
  calc probability (fun draws : Fin n → Fin N =>
        ((new : ReservoirSampler Nat N).reset.sampleAll (· + 1) n draws).Retains i)
      = ∑ place : Fin N, probability (Sits i n place) :=
        probability_exists fun draws place other => sits_unique
    _ = survivors N i n / N * (((N - 1 : ℕ) : ℚ≥0) / N) ^ redraws N i n := by
        simp only [slots, survivors]
        split
        · rename_i room
          rw [Fintype.sum_eq_single ⟨(i - 1) % USIZE, room⟩]
          · by_cases overwritten : Overwritten i n ((i - 1) % USIZE)
            · simp [overwritten]
            · simp [overwritten, div_self whole]
          · intro place elsewhere
            have other : (i - 1) % USIZE ≠ place.val := fun here => elsewhere (Fin.ext here.symm)
            simp [other]
        · rw [← mul_sum, sum_ite, sum_const_zero, zero_add, sum_const, nsmul_eq_mul, ← mul_assoc,
            one_div_mul_eq_div]

/-! ## When the probability is the documented one -/

/-- The condition under which an item is retained with probability `N / n`. -/
def Documented (N i n : Nat) : Prop :=
  redraws N i n = 0 ∧ survivors N i n * n = N * N ∨
    N = 2 ∧ survivors N i n * n = 2 ^ (redraws N i n + 2)

/-- A power of `N - 1` divides a power of `N` in the trivial cases only. -/
theorem documented_iff {N i n : Nat} (capacity : 1 ≤ N) :
    survivors N i n * (N - 1) ^ redraws N i n * n = N * (N * N ^ redraws N i n) ↔
      Documented N i n := by
  unfold Documented
  constructor
  case mp =>
    intro balance
    by_cases none_ : redraws N i n = 0
    · rw [none_] at balance
      exact Or.inl ⟨none_, by simpa using balance⟩
    · have divides : N - 1 ∣ N ^ (redraws N i n + 2) := by
        refine (dvd_pow_self (N - 1) none_).trans ⟨survivors N i n * n, ?_⟩
        rw [pow_add, pow_two, mul_comm (N ^ _), mul_assoc N N, ← balance]
        ring
      have coprime : Nat.Coprime (N - 1) N := by
        rw [Nat.coprime_self_sub_left capacity]
        exact Nat.coprime_one_left N
      have two : N = 2 := by
        have one := (Nat.Coprime.pow_right _ coprime).eq_one_of_dvd divides
        omega
      refine Or.inr ⟨two, ?_⟩
      rw [two] at balance ⊢
      simp only [Nat.add_one_sub_one, one_pow, mul_one] at balance
      rw [balance]
      ring
  case mpr =>
    rintro (⟨none_, survive⟩ | ⟨two, survive⟩)
    · simpa [none_] using survive
    · rw [two] at survive ⊢
      simp only [Nat.add_one_sub_one, one_pow, mul_one]
      rw [survive]
      ring

/-- An item is retained with the documented probability `N / n` exactly when
the condition `Documented` holds, whatever was sampled before the reset. -/
theorem retained_with_documented_probability {N i n : Nat} (sampler : ReservoirSampler Nat N)
    (capacity : 1 ≤ N) (small : N < USIZE) (full : N ≤ n) (start : 1 ≤ i) (called : i ≤ n) :
    probability (fun draws : Fin n → Fin N =>
      (sampler.reset.sampleAll (· + 1) n draws).Retains i) = (N : ℚ≥0) / n ↔
        Documented N i n := by
  have forgotten : ∀ draws : Fin n → Fin N,
      (sampler.reset.sampleAll (· + 1) n draws).Retains i ↔
        ((new : ReservoirSampler Nat N).reset.sampleAll (· + 1) n draws).Retains i := by
    intro draws
    refine exists_congr fun place => ?_
    rw [sampleAll_samples_eq_new small sampler _ n draws place (place.isLt.trans_le full)]
  have whole : (N : ℚ≥0) ≠ 0 := by exact_mod_cast (by omega : N ≠ 0)
  have many : (n : ℚ≥0) ≠ 0 := by exact_mod_cast (by omega : n ≠ 0)
  rw [probability_congr forgotten, probability_retains start called capacity, div_pow,
    div_mul_div_comm, div_eq_div_iff (mul_ne_zero whole (pow_ne_zero _ whole)) many,
    ← documented_iff capacity]
  exact_mod_cast Iff.rfl

/-- Two slots and eight items: the sixth is retained with probability 2/8. -/
theorem retained_with_documented_probability_two :
    probability (fun draws : Fin 8 → Fin 2 =>
      ((new : ReservoirSampler Nat 2).reset.sampleAll (· + 1) 8 draws).Retains 6) =
        (2 : ℕ) / (8 : ℕ) ↔ Documented 2 6 8 :=
  retained_with_documented_probability new (by decide) (by decide) (by decide) (by decide)
    (by decide)

/-- Two slots and three items: the first is retained with probability 1/2. -/
theorem retained_not_uniform :
    probability (fun draws : Fin 3 → Fin 2 =>
      ((new : ReservoirSampler Nat 2).reset.sampleAll (· + 1) 3 draws).Retains 1) ≠
        (2 : ℕ) / (3 : ℕ) := by
  have survive : survivors 2 1 3 = 2 := by decide
  have redraw : redraws 2 1 3 = 1 := by decide
  rw [probability_retains (by decide) (by decide) (by decide), survive, redraw]
  norm_num

/-! ## Before the counter wraps -/

section Unwrapped

variable {i n : Nat} (unwrapped : n ≤ USIZE)
include unwrapped

theorem overwritten_iff {place : Nat} : Overwritten i n place ↔ i ≤ place ∧ place < n := by
  constructor
  case mp =>
    rintro ⟨j, later, rfl⟩
    rw [mem_Ico] at later
    rw [Nat.mod_eq_of_lt (by omega)]
    exact later
  case mpr =>
    rintro ⟨after, before⟩
    exact ⟨place, mem_Ico.mpr ⟨after, before⟩, Nat.mod_eq_of_lt (by omega)⟩

/-- No slot is filled twice. -/
theorem survivors_eq (start : 1 ≤ i) (called : i ≤ n) : survivors N i n = N := by
  have index : (i - 1) % USIZE = i - 1 := Nat.mod_eq_of_lt (by omega)
  unfold survivors
  rw [index]
  split
  · rw [if_neg]
    rw [overwritten_iff unwrapped]
    omega
  · rename_i later
    rw [filter_true_of_mem, card_univ, Fintype.card_fin]
    intro place _
    rw [overwritten_iff unwrapped]
    have inside := place.isLt
    omega

/-- Every later call redraws once the reservoir is full. -/
theorem redraws_eq : redraws N i n = n - max i N := by
  have later : (Ico i n).filter (fun j => ¬ j % USIZE < N) = Ico (max i N) n := by
    ext j
    simp only [mem_filter, mem_Ico, not_lt, max_le_iff]
    constructor
    case mp =>
      rintro ⟨⟨after, before⟩, room⟩
      rw [Nat.mod_eq_of_lt (by omega)] at room
      exact ⟨⟨after, room⟩, before⟩
    case mpr =>
      rintro ⟨⟨after, room⟩, before⟩
      rw [Nat.mod_eq_of_lt (by omega)]
      exact ⟨⟨after, before⟩, room⟩
  rw [redraws, later, Nat.card_Ico]

/-- The documented probability is met when nothing was ever overwritten, and by
coincidence for two slots. -/
theorem documented_iff_of_unwrapped (capacity : 1 ≤ N) (full : N ≤ n) (start : 1 ≤ i)
    (called : i ≤ n) :
    Documented N i n ↔ n = N ∨ N = 2 ∧ n = 2 ^ (n - max i 2 + 1) := by
  unfold Documented
  rw [survivors_eq unwrapped start called, redraws_eq unwrapped]
  constructor
  case mp =>
    rintro (⟨_, same⟩ | ⟨rfl, power⟩)
    · exact Or.inl (Nat.eq_of_mul_eq_mul_left capacity same)
    · refine Or.inr ⟨rfl, ?_⟩
      rw [pow_succ'] at power
      exact Nat.eq_of_mul_eq_mul_left two_pos power
  case mpr =>
    rintro (rfl | ⟨rfl, power⟩)
    · exact Or.inl ⟨by omega, rfl⟩
    · refine Or.inr ⟨rfl, ?_⟩
      rw [pow_succ', ← power]

end Unwrapped

end Schtest.Stats.ReservoirSampler
