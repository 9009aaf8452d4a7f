import Schtest.Collections.WordSet
import Schtest.Topology.Partition

/-!
# CPU masks

Every level of the topology gives a mask that is passed to
`sched_setaffinity`.  A hyperthread sets its own bit; every other level ORs the
masks of its children, word by word, into a zeroed mask.
-/

namespace Schtest.Topology

open Schtest.Collections

/-- `CPU_SETSIZE`. -/
def CPU_SETSIZE : Nat :=
  1024

/-- `libc::cpu_set_t` as its `c_ulong`s. -/
abbrev CpuSet :=
  WordSet 16 64

/-! ## The masks -/

/-- A `c_ulong` beyond the set cannot be written, which is `none`. -/
def cpuSet (cpu : Nat) (set : CpuSet) : Option CpuSet :=
  set.insert? cpu

/-- `cpu_or`: the union of two sets. -/
def cpuOr (dest src : CpuSet) : CpuSet :=
  dest.union src

/-- `id as usize` of an `i32`. -/
def asUsize (id : Int) : Nat :=
  (id % 2 ^ 64).toNat

/-- `mask` of a `Hyperthread`: its own bit. -/
def Hyperthread.mask (ht : Hyperthread) : Option CpuSet :=
  cpuSet (asUsize ht.id) WordSet.empty

/-- The masks of some children, each passed to `cpu_or` for a zeroed mask. -/
def orMasks {α : Type} (mask : α → Option CpuSet) (children : List α) : Option CpuSet :=
  children.foldlM (fun dest child => (mask child).map (cpuOr dest)) WordSet.empty

theorem orMasks_eq {α : Type} (mask : α → Option CpuSet) (children : List α) :
    orMasks mask children = WordSet.unionAll mask children :=
  rfl

/-- `mask` of a `Core`. -/
def Core.mask (core : Core) : Option CpuSet :=
  orMasks Hyperthread.mask core.hyperthreads

/-- `mask` of a `CoreComplex`. -/
def CoreComplex.mask (complex : CoreComplex) : Option CpuSet :=
  orMasks Core.mask complex.cores

/-- `mask` of a `Node`. -/
def Node.mask (node : Node) : Option CpuSet :=
  orMasks CoreComplex.mask node.complexes

/-- `mask` of a `System`. -/
def System.mask (system : System) : Option CpuSet :=
  orMasks Node.mask system.nodes

/-! ## What lies under a level -/

/-- The ids of the logical CPUs of a core. -/
def Core.cpuIds (core : Core) : List Int :=
  core.hyperthreads.map Hyperthread.id

/-- The ids of the logical CPUs of a complex. -/
def CoreComplex.cpuIds (complex : CoreComplex) : List Int :=
  complex.cores.flatMap Core.cpuIds

/-- The ids of the logical CPUs of a node. -/
def Node.cpuIds (node : Node) : List Int :=
  node.complexes.flatMap CoreComplex.cpuIds

theorem System.cpuIds_eq (system : System) : system.cpuIds = system.nodes.flatMap Node.cpuIds :=
  rfl

/-- The ids have a bit in a `cpu_set_t`. -/
def InSet (cpuIds : List Int) : Prop :=
  ∀ id ∈ cpuIds, 0 ≤ id ∧ id < CPU_SETSIZE

/-- Bit `c % 64` of word `c / 64` is set in a mask. -/
def HasBit (mask : Option CpuSet) (c : Nat) : Prop :=
  ∃ set, mask = some set ∧ set.get c = true

/-- A mask is computed, and its bits are some ids. -/
def Exact (mask : Option CpuSet) (cpuIds : List Int) : Prop :=
  mask.isSome ∧ ∀ c < CPU_SETSIZE, HasBit mask c ↔ (c : Int) ∈ cpuIds

theorem InSet.of_subset {cpuIds others : List Int} (inSet : InSet cpuIds)
    (subset : others ⊆ cpuIds) : InSet others :=
  fun id member => inSet id (subset member)

theorem InSet.child {α : Type} {cpuIds : α → List Int} {children : List α} {child : α}
    (inSet : InSet (children.flatMap cpuIds)) (member : child ∈ children) :
    InSet (cpuIds child) :=
  inSet.of_subset fun _ under => List.mem_flatMap.mpr ⟨child, member, under⟩

theorem exact_iff {mask : Option CpuSet} {cpuIds : List Int} :
    Exact mask cpuIds ↔
      ∃ set, mask = some set ∧ set.Represents fun c => (c : Int) ∈ cpuIds := by
  constructor
  · intro exact
    obtain ⟨set, computed⟩ := Option.isSome_iff_exists.mp exact.1
    constructor
    constructor
    · exact computed
    · intro c inRange
      have bits := exact.2 c inRange
      simpa [HasBit, computed] using bits
  · rintro ⟨set, rfl, represents⟩
    constructor
    · rfl
    · intro c inRange
      have bits := represents c inRange
      simpa [HasBit] using bits

/-- Masks of the same ids are the same. -/
theorem Exact.unique {first second : Option CpuSet} {cpuIds others : List Int}
    (left : Exact first cpuIds) (right : Exact second others)
    (same : ∀ id, id ∈ cpuIds ↔ id ∈ others) : first = second := by
  obtain ⟨firstSet, rfl, firstRepresents⟩ := exact_iff.mp left
  obtain ⟨secondSet, rfl, secondRepresents⟩ := exact_iff.mp right
  congr 1
  exact firstRepresents.unique (secondRepresents.congr fun c _ => (same c).symm)

/-! ## The levels -/

theorem asUsize_of_nonneg {id : Int} (inSet : 0 ≤ id ∧ id < CPU_SETSIZE) :
    (asUsize id : Int) = id := by
  unfold asUsize CPU_SETSIZE at *
  omega

theorem Hyperthread.mask_exact {ht : Hyperthread} (inSet : InSet [ht.id]) :
    Exact ht.mask [ht.id] := by
  have bounds := inSet ht.id (List.mem_singleton_self _)
  have position := asUsize_of_nonneg bounds
  have inRange : asUsize ht.id < 16 * 64 := by
    unfold CPU_SETSIZE at bounds
    omega
  obtain ⟨set, inserted, bits⟩ := WordSet.insert?_spec WordSet.empty inRange
  apply exact_iff.mpr
  constructor
  constructor
  · exact inserted
  · intro c _
    simp only [bits, WordSet.get_empty, Bool.or_false, decide_eq_true_eq, List.mem_singleton]
    omega

/-- The bits of a parent are those of its children. -/
def IsUnion {α : Type} (parent : Option CpuSet) (mask : α → Option CpuSet) (children : List α) :
    Prop :=
  parent.isSome ∧ (∀ child ∈ children, (mask child).isSome) ∧
    ∀ c < CPU_SETSIZE, HasBit parent c ↔ ∃ child ∈ children, HasBit (mask child) c

section Levels

variable {α : Type} {mask : α → Option CpuSet} {cpuIds : α → List Int} {children : List α}

theorem Exact.isUnion {parent : Option CpuSet} (exact : Exact parent (children.flatMap cpuIds))
    (each : ∀ child ∈ children, Exact (mask child) (cpuIds child)) :
    IsUnion parent mask children := by
  constructor
  · exact exact.1
  constructor
  · intro child member
    exact (each child member).1
  · intro c inRange
    rw [exact.2 c inRange, List.mem_flatMap]
    constructor
    · rintro ⟨child, member, under⟩
      exact ⟨child, member, ((each child member).2 c inRange).mpr under⟩
    · rintro ⟨child, member, bit⟩
      exact ⟨child, member, ((each child member).2 c inRange).mp bit⟩

/-- The masks of the children are exact, hence so is their union. -/
theorem orMasks_exact
    (each : ∀ child ∈ children, InSet (cpuIds child) → Exact (mask child) (cpuIds child))
    (inSet : InSet (children.flatMap cpuIds)) :
    Exact (orMasks mask children) (children.flatMap cpuIds) ∧
      IsUnion (orMasks mask children) mask children := by
  have exact_ : ∀ child ∈ children, Exact (mask child) (cpuIds child) :=
    fun child member => each child member (inSet.child member)
  obtain ⟨set, computed, represents⟩ := WordSet.unionAll_represents fun child member =>
    exact_iff.mp (exact_ child member)
  have union : Exact (orMasks mask children) (children.flatMap cpuIds) := by
    apply exact_iff.mpr
    constructor
    constructor
    · rw [orMasks_eq, computed]
    · exact represents.congr fun c _ => List.mem_flatMap.symm
  constructor
  · exact union
  · exact union.isUnion exact_

end Levels

theorem Core.mask_exact {core : Core} (inSet : InSet core.cpuIds) :
    Exact core.mask core.cpuIds ∧ IsUnion core.mask Hyperthread.mask core.hyperthreads := by
  have single : core.cpuIds = core.hyperthreads.flatMap fun ht => [ht.id] :=
    List.map_eq_flatMap
  rw [single] at inSet ⊢
  exact orMasks_exact (fun _ _ => Hyperthread.mask_exact) inSet

theorem CoreComplex.mask_exact {complex : CoreComplex} (inSet : InSet complex.cpuIds) :
    Exact complex.mask complex.cpuIds ∧ IsUnion complex.mask Core.mask complex.cores :=
  orMasks_exact (fun _ _ coreSet => (Core.mask_exact coreSet).1) inSet

theorem Node.mask_exact {node : Node} (inSet : InSet node.cpuIds) :
    Exact node.mask node.cpuIds ∧ IsUnion node.mask CoreComplex.mask node.complexes :=
  orMasks_exact (fun _ _ complexSet => (CoreComplex.mask_exact complexSet).1) inSet

theorem System.mask_exact {system : System} (inSet : InSet system.cpuIds) :
    Exact system.mask system.cpuIds ∧ IsUnion system.mask Node.mask system.nodes :=
  orMasks_exact (fun _ _ nodeSet => (Node.mask_exact nodeSet).1) inSet

/-! ## Cores and disjointness -/

/-- The sorted cores of a system have its CPUs. -/
theorem mem_cores_flatMap_cpuIds {nodes : List Node} {id : Int} :
    id ∈ (System.new nodes).cores.flatMap Core.cpuIds ↔ id ∈ (System.new nodes).cpuIds := by
  have permuted : ((System.new nodes).cores.flatMap Core.cpuIds).Perm
      ((nodes.flatMap Node.cores).flatMap Core.cpuIds) :=
    (List.perm_insertionSort _ _).flatMap_right _
  rw [permuted.mem_iff, System.cpuIds_eq]
  simp only [Node.cores, List.flatMap_assoc]
  rfl

theorem Exact.disjoint {first second : Option CpuSet} {cpuIds others : List Int}
    (left : Exact first cpuIds) (right : Exact second others) (disjoint : cpuIds.Disjoint others) :
    ∀ c < CPU_SETSIZE, ¬ (HasBit first c ∧ HasBit second c) := by
  rintro c inRange ⟨firstBit, secondBit⟩
  exact disjoint ((left.2 c inRange).mp firstBit) ((right.2 c inRange).mp secondBit)

/-- What the masks of a system and of everything below it are. -/
structure ExactMasks (system : System) : Prop where
  whole : Exact system.mask system.cpuIds ∧ IsUnion system.mask Node.mask system.nodes
  node : ∀ node ∈ system.nodes,
    Exact node.mask node.cpuIds ∧ IsUnion node.mask CoreComplex.mask node.complexes
  complex : ∀ node ∈ system.nodes, ∀ complex ∈ node.complexes,
    Exact complex.mask complex.cpuIds ∧ IsUnion complex.mask Core.mask complex.cores
  core : ∀ core ∈ system.cores,
    Exact core.mask core.cpuIds ∧ IsUnion core.mask Hyperthread.mask core.hyperthreads
  hyperthread : ∀ core ∈ system.cores, ∀ ht ∈ core.hyperthreads, Exact ht.mask [ht.id]
  cores : IsUnion system.mask Core.mask system.cores ∧
    system.mask = orMasks Core.mask system.cores
  disjoint : ∀ first ∈ system.cores, ∀ second ∈ system.cores,
    first.cpuIds.Disjoint second.cpuIds →
      ∀ c < CPU_SETSIZE, ¬ (HasBit first.mask c ∧ HasBit second.mask c)

theorem InSet.cores {nodes : List Node} (inSet : InSet (System.new nodes).cpuIds) :
    InSet ((System.new nodes).cores.flatMap Core.cpuIds) :=
  inSet.of_subset fun _ under => mem_cores_flatMap_cpuIds.mp under

/-- The mask of a system is the union of the masks of its cores, in the order of their ids. -/
theorem System.mask_eq_orMasks {nodes : List Node} (inSet : InSet (System.new nodes).cpuIds) :
    IsUnion (System.new nodes).mask Core.mask (System.new nodes).cores ∧
      (System.new nodes).mask = orMasks Core.mask (System.new nodes).cores := by
  have each (core : Core) (_ : core ∈ (System.new nodes).cores) (coreSet : InSet core.cpuIds) :=
    (Core.mask_exact coreSet).1
  obtain ⟨exact_, isUnion⟩ := orMasks_exact each inSet.cores
  have same : (System.new nodes).mask = orMasks Core.mask (System.new nodes).cores :=
    (System.mask_exact inSet).1.unique exact_ fun _ => mem_cores_flatMap_cpuIds.symm
  rw [same]
  exact ⟨isUnion, rfl⟩

/-- The masks of every system whose ids have a bit are exact. -/
theorem exactMasks_of_inSet (nodes : List Node) (inSet : InSet (System.new nodes).cpuIds) :
    ExactMasks (System.new nodes) := by
  have nodeSet : ∀ node ∈ nodes, InSet node.cpuIds := fun node member => inSet.child member
  have coreSet : ∀ core ∈ (System.new nodes).cores, InSet core.cpuIds :=
    fun core member => inSet.cores.child member
  constructor
  case whole => exact System.mask_exact inSet
  case node => exact fun node member => Node.mask_exact (nodeSet node member)
  case complex =>
    intro node member complex under
    exact CoreComplex.mask_exact ((nodeSet node member).child under)
  case core => exact fun core member => Core.mask_exact (coreSet core member)
  case hyperthread =>
    intro core member ht under
    apply Hyperthread.mask_exact
    apply (coreSet core member).of_subset
    rintro id same
    rw [List.mem_singleton.mp same]
    exact List.mem_map_of_mem under
  case cores => exact System.mask_eq_orMasks inSet
  case disjoint =>
    intro first firstMember second secondMember disjoint
    exact (Core.mask_exact (coreSet first firstMember)).1.disjoint
      (Core.mask_exact (coreSet second secondMember)).1 disjoint

/-- Two nodes, one of them empty, and ids on both sides of a word's end. -/
theorem exactMasks_two_words :
    InSet (System.new [⟨0, [⟨0, [⟨1, [⟨63⟩, ⟨64⟩]⟩, ⟨0, []⟩]⟩]⟩, ⟨1, []⟩]).cpuIds ∧
      ExactMasks (System.new [⟨0, [⟨0, [⟨1, [⟨63⟩, ⟨64⟩]⟩, ⟨0, []⟩]⟩]⟩, ⟨1, []⟩]) := by
  have inSet :
      InSet (System.new [⟨0, [⟨0, [⟨1, [⟨63⟩, ⟨64⟩]⟩, ⟨0, []⟩]⟩]⟩, ⟨1, []⟩]).cpuIds := by
    unfold InSet
    decide
  exact ⟨inSet, exactMasks_of_inSet _ inSet⟩

end Schtest.Topology
