import Schtest.Shared.Create

/-!
# Pointers

`alloc` rounds its position up and returns the address at that offset in the
mapping.  Offsets meet every alignment; an address does so exactly when the base
of the mapping does.  The system places mappings at multiples of the page size.
-/

namespace Schtest.Shared

open Schtest.Transition

universe u

/-- `self.memfd.data().add(aligned)`. -/
def pointer (data offset : U64) : U64 :=
  data + offset

/-- An address that wraps keeps its remainders. -/
theorem dvd_pointer_iff (layout : Layout) (data : U64) {offset : U64}
    (aligned : layout.align.toNat ∣ offset.toNat) :
    layout.align.toNat ∣ (pointer data offset).toNat ↔ layout.align.toNat ∣ data.toNat := by
  have divides : layout.align.toNat ∣ 2 ^ 64 := layout.align_dvd.trans (by decide)
  rw [pointer, BitVec.toNat_add, Nat.dvd_mod_iff divides]
  exact (Nat.dvd_add_iff_left aligned).symm

/-- Of two powers of two the smaller divides the larger. -/
theorem Layout.align_dvd_page_iff (layout : Layout) (page : PageSize) :
    layout.align.toNat ∣ page.bytes.toNat ↔ layout.align.toNat ≤ page.bytes.toNat := by
  constructor
  · exact Nat.le_of_dvd page.pos
  · intro within
    obtain ⟨j, alignPower⟩ := layout.power
    obtain ⟨k, pagePower⟩ := page.power
    rw [alignPower, pagePower] at within ⊢
    exact Nat.pow_dvd_pow 2 ((Nat.pow_le_pow_iff_right Nat.one_lt_two).mp within)

/-- Multiples of the page size are multiples of the alignments up to it, and of no others. -/
theorem Layout.align_dvd_bases_iff (layout : Layout) (page : PageSize) :
    (∀ data : U64, page.bytes.toNat ∣ data.toNat → layout.align.toNat ∣ data.toNat) ↔
      layout.align.toNat ≤ page.bytes.toNat := by
  rw [← layout.align_dvd_page_iff page]
  constructor
  · exact fun divides => divides page.bytes dvd_rfl
  · exact fun divides data mapped => divides.trans mapped

variable {ι : Type u} [DecidableEq ι]

/-- In every history of allocations a returned address meets the alignment of its layout
exactly when the base of the mapping does; whatever page the base is, exactly when the
alignment is at most the page size. -/
theorem pointer_aligned_iff (memfd : MemFd) (page : PageSize)
    (config : Threads ι BumpAllocator Allocating)
    (reachable : (allocSystem ι memfd).Reachable config) :
    ∀ allocation ∈ config.shared.log, ∀ offset, allocation.result = some offset →
      (∀ data : U64, allocation.layout.align.toNat ∣ (pointer data offset).toNat ↔
        allocation.layout.align.toNat ∣ data.toNat) ∧
      ((∀ data : U64, page.bytes.toNat ∣ data.toNat →
          allocation.layout.align.toNat ∣ (pointer data offset).toNat) ↔
        allocation.layout.align.toNat ≤ page.bytes.toNat) := by
  intro allocation member offset returned
  have packed := (packed_of_reachable reachable).1
  have aligned := (packed.below allocation member offset returned).2
  have same (data : U64) := dvd_pointer_iff allocation.layout data aligned
  constructor
  · exact same
  · rw [← allocation.layout.align_dvd_bases_iff page]
    exact forall_congr' fun data => imp_congr_right fun _ => same data

theorem pointer_aligned_iff_lostExchange :
    ∃ config, (allocSystem (Fin 2) onePage).exec
        ⟨.new, fun tid => ⟨twoThreads tid, .load, 0⟩⟩ lostExchange = some config ∧
      ∀ allocation ∈ config.shared.log, ∀ offset, allocation.result = some offset →
        (∀ data : U64, allocation.layout.align.toNat ∣ (pointer data offset).toNat ↔
          allocation.layout.align.toNat ∣ data.toNat) ∧
        ((∀ data : U64, fourKiB.bytes.toNat ∣ data.toNat →
            allocation.layout.align.toNat ∣ (pointer data offset).toNat) ↔
          allocation.layout.align.toNat ≤ fourKiB.bytes.toNat) := by
  have initial : (allocSystem (Fin 2) onePage).init
      ⟨.new, fun tid => ⟨twoThreads tid, .load, 0⟩⟩ := ⟨rfl, fun _ => ⟨rfl, rfl⟩⟩
  obtain ⟨config, run, reachable⟩ :=
    System.exists_exec_of_isSome lostExchange initial (by decide)
  exact ⟨config, run, pointer_aligned_iff onePage fourKiB config reachable⟩

/-- Four pages, at an odd page. -/
def fourPages : MemFd :=
  (MemFd.create 4096 16384).get (by decide)

/-- A page whose address is no multiple of two pages. -/
def oddPage : U64 :=
  0x7f0000001000

/-- One byte, aligned to two pages. -/
def twoPageAligned : Layout :=
  ⟨1, 8192, ⟨13, rfl⟩, by decide⟩

/-- The first byte of the mapping is returned for it. -/
theorem pointer_misaligned :
    fourKiB.bytes.toNat ∣ oddPage.toNat ∧
      ∃ config, (allocSystem (Fin 1) fourPages).Reachable config ∧
        ∃ allocation ∈ config.shared.log, ∃ offset, allocation.result = some offset ∧
          ¬ allocation.layout.align.toNat ∣ (pointer oddPage offset).toNat := by
  have initial : (allocSystem (Fin 1) fourPages).init
      ⟨.new, fun _ => ⟨[twoPageAligned], .load, 0⟩⟩ := ⟨rfl, fun _ => ⟨rfl, rfl⟩⟩
  obtain ⟨config, reachable, logged⟩ := System.exists_reachable_of_exec
    (List.replicate 3 (0, ())) (fun config => config.shared.log.any fun allocation =>
      allocation.result.any fun offset =>
        !decide (allocation.layout.align.toNat ∣ (pointer oddPage offset).toNat))
    initial (by decide)
  obtain ⟨allocation, member, some_⟩ := List.any_eq_true.mp logged
  obtain ⟨offset, returned, misaligned⟩ := (Option.any_eq_true _ _).mp some_
  refine ⟨by decide, config, reachable, allocation, member, offset, returned, ?_⟩
  simpa using misaligned

end Schtest.Shared
