import Schtest.Stats.Visualize

/-!
# Distributions

A `Distribution` keeps a digest of its values, from which the standard quantiles are
estimated.  The digest is that of another crate: its operations are parameters, about
which nothing is assumed.
-/

namespace Schtest.Stats

open DistributionValue

/-- The operations of `tdigest::TDigest` that are used. -/
structure TDigest (D : Type) where
  newWithSize : Nat → D
  mergeUnsorted : D → List F64 → D
  estimateQuantile : D → F64 → F64

/-- A `Distribution`, which keeps its values in a digest. -/
structure Distribution (D T : Type) where
  digest : D

namespace Distribution

variable {D T : Type} [DistributionValue T] (tdigest : TDigest D)

/-- `Distribution::new`: a digest of size 100. -/
def new : Distribution D T :=
  ⟨tdigest.newWithSize 100⟩

/-- `Distribution::add`. -/
def add (distribution : Distribution D T) (value : T) : Distribution D T :=
  ⟨tdigest.mergeUnsorted distribution.digest [toF64 value]⟩

/-- `add_all`, with the values that the claimed slots of the reservoir hold. -/
def addAll (distribution : Distribution D T) (values : List T) : Distribution D T :=
  ⟨tdigest.mergeUnsorted distribution.digest (values.map toF64)⟩

/-- The value at a percentile, converted back. -/
def valueAt (distribution : Distribution D T) (p : F64) : T :=
  ofF64 (tdigest.estimateQuantile distribution.digest p)

/-- `Distribution::estimates`: the values of the digest at the standard percentiles. -/
def estimates (distribution : Distribution D T) : Estimates T :=
  ⟨standard.map fun p => (p, distribution.valueAt tdigest p)⟩

variable {tdigest} {distribution : Distribution D T}

/-- A standard percentile is found as it was estimated. -/
theorem percentile_estimates {p : F64} (drawn : p ∈ standard) :
    (distribution.estimates tdigest).percentile p = some (distribution.valueAt tdigest p) := by
  have alone : ∀ p ∈ standard, standard.find? (fun q => |q - p| < EPSILON) = some p := by
    decide +kernel
  have matched : (distribution.estimates tdigest).exactMatch p =
      some (p, distribution.valueAt tdigest p) := by
    rw [Estimates.exactMatch, estimates, List.find?_map]
    exact congrArg _ (alone p drawn)
  rw [Estimates.percentile, matched]

/-- The estimates can be drawn. -/
theorem visualize_estimates (tdigest : TDigest D) (distribution : Distribution D T)
    (debug : T → List Char) (width terminal : Option Nat) :
    ((distribution.estimates tdigest).visualize debug width terminal).isSome := by
  rw [Estimates.visualize_eq]
  · rfl
  · intro empty
    have first : (1 / 1000, distribution.valueAt tdigest (1 / 1000)) ∈
        (distribution.estimates tdigest).quantiles := List.mem_cons_self
    have far := Estimates.points_eq_nil.mp empty _ first (1 / 1000) List.mem_cons_self
    simp [near] at far

end Distribution

end Schtest.Stats
