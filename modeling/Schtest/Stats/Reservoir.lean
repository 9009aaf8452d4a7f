import Schtest.Probability.Uniform

/-!
# Reservoir sampler

The sampler of `util/stats.rs`, one call of `sample` at a time.  The uniform
number of `gen_range(0..N)` is an argument of the call, which uses it only when
the reservoir is full.
-/

namespace Schtest.Stats

open Schtest.Probability

universe u

/-- The number of values of a `usize`. -/
def USIZE : Nat := 2 ^ 64

/-- A reservoir of `N` slots, uninitialised where `none`, and the number of
items it was given. -/
structure ReservoirSampler (T : Type u) (N : Nat) where
  samples : Fin N → Option T
  count : Nat

namespace ReservoirSampler

variable {T : Type u} {N : Nat}

/-- `ReservoirSampler::new`. -/
def new : ReservoirSampler T N where
  samples _ := none
  count := 0

/-- `sample(item)`, where `gen_range(0..N)` would return `draw`. -/
def sample (sampler : ReservoirSampler T N) (item : T) (draw : N ≠ 0 → Fin N) :
    ReservoirSampler T N :=
  if zero : N = 0 then sampler
  else
    let index := sampler.count
    let slot := if room : index < N then ⟨index, room⟩ else draw zero
    { samples := Function.update sampler.samples slot (some item)
      count := (sampler.count + 1) % USIZE }

/-- `reset()`: the old samples stay in their slots. -/
def reset (sampler : ReservoirSampler T N) : ReservoirSampler T N :=
  { sampler with count := 0 }

/-- Give the sampler the first `n` items, with these draws. -/
def sampleAll (sampler : ReservoirSampler T N) (items : Nat → T) :
    (n : Nat) → (Fin n → Fin N) → ReservoirSampler T N
  | 0, _ => sampler
  | n + 1, draws =>
      (sampler.sampleAll items n (Fin.init draws)).sample (items n) fun _ => draws (Fin.last n)

/-- The item is among the retained ones. -/
def Retains (sampler : ReservoirSampler T N) (item : T) : Prop :=
  ∃ slot, sampler.samples slot = some item

instance [DecidableEq T] (sampler : ReservoirSampler T N) (item : T) :
    Decidable (sampler.Retains item) :=
  inferInstanceAs (Decidable (∃ slot, sampler.samples slot = some item))

/-- The slot written by the call number `n`, counted from zero, after a reset. -/
def slot (n : Nat) (draw : Fin N) : Fin N :=
  if room : n % USIZE < N then ⟨n % USIZE, room⟩ else draw

theorem slot_of_lt {n : Nat} (room : n % USIZE < N) (draw : Fin N) :
    slot n draw = ⟨n % USIZE, room⟩ :=
  dif_pos room

theorem slot_of_ge {n : Nat} (full : ¬ n % USIZE < N) (draw : Fin N) : slot n draw = draw :=
  dif_neg full

theorem sampleAll_count (sampler : ReservoirSampler T N) (items : Nat → T) (n : Nat)
    (draws : Fin n → Fin N) : (sampler.reset.sampleAll items n draws).count = n % USIZE := by
  induction n with
  | zero => rfl
  | succ n ih =>
      have positive : N ≠ 0 := (Fin.pos (draws (Fin.last n))).ne'
      rw [sampleAll, sample, dif_neg positive]
      simp only [ih, Nat.mod_add_mod]

/-- A call writes its item into its slot. -/
theorem sampleAll_samples_succ (sampler : ReservoirSampler T N) (items : Nat → T) (n : Nat)
    (draws : Fin (n + 1) → Fin N) :
    (sampler.reset.sampleAll items (n + 1) draws).samples =
      Function.update (sampler.reset.sampleAll items n (Fin.init draws)).samples
        (slot n (draws (Fin.last n))) (some (items n)) := by
  have positive : N ≠ 0 := (Fin.pos (draws (Fin.last n))).ne'
  rw [sampleAll, sample, dif_neg positive]
  simp only [sampleAll_count, slot]

/-- What was in a slot before the reset does not matter once it is written. -/
theorem sampleAll_samples_eq_new (small : N < USIZE) (sampler : ReservoirSampler T N)
    (items : Nat → T) (n : Nat) (draws : Fin n → Fin N) (place : Fin N) (written : place.val < n) :
    (sampler.reset.sampleAll items n draws).samples place =
      ((new : ReservoirSampler T N).reset.sampleAll items n draws).samples place := by
  induction n with
  | zero => contradiction
  | succ n ih =>
      rw [sampleAll_samples_succ, sampleAll_samples_succ]
      by_cases here : place = slot n (draws (Fin.last n))
      · rw [here, Function.update_self, Function.update_self]
      · rw [Function.update_of_ne here, Function.update_of_ne here]
        refine ih (Fin.init draws) (lt_of_le_of_ne (Nat.le_of_lt_succ written) ?_)
        intro last
        have index : n % USIZE = n := Nat.mod_eq_of_lt (by omega)
        apply here
        rw [slot_of_lt (by omega)]
        exact Fin.ext (last.trans index.symm)

/-- Only items given to the sampler are in a new reservoir. -/
theorem sampleAll_samples_le {n i : Nat} {draws : Fin n → Fin N} {place : Fin N}
    (holds : ((new : ReservoirSampler Nat N).reset.sampleAll (· + 1) n draws).samples place =
      some i) : i ≤ n := by
  induction n with
  | zero => contradiction
  | succ n ih =>
      rw [sampleAll_samples_succ] at holds
      by_cases here : place = slot n (draws (Fin.last n))
      · rw [here, Function.update_self] at holds
        cases holds
        exact le_rfl
      · rw [Function.update_of_ne here] at holds
        exact (ih holds).trans (Nat.le_succ n)

end ReservoirSampler

end Schtest.Stats
