import Mathlib.Data.List.Nodup
import Mathlib.Logic.Function.Basic

/-!
# Claims on a table

A table of slots, and a list of claims on it.  A claim names a slot and what stands
there.  Where no two claims name the same content, giving up one of them leaves the
slots of the others alone.
-/

namespace Schtest.Collections

universe u v

variable {α : Type u} {β : Type v} [DecidableEq α] {table : α → Option β}
  {claims : List (α × β)}

/-- Every claim is met, and no two claims name the same content. -/
structure Backed (table : α → Option β) (claims : List (α × β)) : Prop where
  met : ∀ claim ∈ claims, table claim.1 = some claim.2
  distinct : (claims.map Prod.snd).Nodup

omit [DecidableEq α] in
theorem Backed.nil (table : α → Option β) : Backed table [] :=
  ⟨List.forall_mem_nil _, List.nodup_nil⟩

omit [DecidableEq α] in
theorem Backed.perm (backed : Backed table claims) {others : List (α × β)}
    (same : List.Perm claims others) : Backed table others where
  met claim member := backed.met claim (same.mem_iff.mpr member)
  distinct := (same.map Prod.snd).nodup_iff.mp backed.distinct

omit [DecidableEq α] in
theorem Backed.sublist (backed : Backed table claims) {fewer : List (α × β)}
    (fewerClaims : List.Sublist fewer claims) : Backed table fewer where
  met claim member := backed.met claim (fewerClaims.subset member)
  distinct := backed.distinct.sublist (fewerClaims.map Prod.snd)

/-- A slot without content is claimed. -/
theorem Backed.claim (backed : Backed table claims) {slot : α} {content : β}
    (free : table slot = none) (fresh : ∀ claim ∈ claims, claim.2 ≠ content) :
    Backed (Function.update table slot (some content)) ((slot, content) :: claims) where
  met := by
    refine List.forall_mem_cons.mpr ⟨Function.update_self _ _ _, fun claim member => ?_⟩
    have elsewhere : claim.1 ≠ slot := by
      intro same
      have found := backed.met claim member
      rw [same, free] at found
      contradiction
    rw [Function.update_of_ne elsewhere]
    exact backed.met claim member
  distinct := by
    rw [List.map_cons, List.nodup_cons]
    refine ⟨?_, backed.distinct⟩
    rw [List.mem_map]
    rintro ⟨claim, member, same⟩
    exact fresh claim member same

/-- A claim is given up, and its slot emptied. -/
theorem Backed.release {claim : α × β} (backed : Backed table (claim :: claims)) :
    Backed (Function.update table claim.1 none) claims where
  met other member := by
    obtain ⟨unlike, _⟩ := List.nodup_cons.mp backed.distinct
    have elsewhere : other.1 ≠ claim.1 := by
      intro same
      have here := backed.met claim List.mem_cons_self
      have there := backed.met other (List.mem_cons_of_mem _ member)
      rw [same, here] at there
      rw [Option.some.inj there] at unlike
      exact unlike (List.mem_map_of_mem member)
    rw [Function.update_of_ne elsewhere]
    exact backed.met other (List.mem_cons_of_mem _ member)
  distinct := (List.nodup_cons.mp backed.distinct).2

end Schtest.Collections
