import Schtest.Topology.Mask
import Schtest.Topology.SpreadOut

/-!
# Where the cases place their processes

The benchmarks and tests pin their processes to parts of the system, and are ignored
where a constraint on the system fails.  The systems are those that `System::load`
builds: no part of them is empty.
-/

namespace Schtest.Cases

open Schtest.Collections Schtest.Topology

/-! ## The source

What panics is `none`. -/

/-- What the two processes of `ping_pong` share. -/
inductive WakeType
  | sameHyperthread
  | sameCore
  | sameComplex
  | sameNode
  | unpinned
  deriving DecidableEq, Repr

/-- `Ok(())`, or the reason for which a case is ignored. -/
def require (condition : Prop) [Decidable condition] (reason : String) : Except String Unit :=
  if condition then .ok () else .error reason

/-- The constraint of `ping_pong`. -/
def checkWakeType (system : System) : WakeType → Option (Except String Unit)
  | .sameHyperthread => do
      let core ← system.cores.head?
      some (require (core.hyperthreads.length > 1) "same as single core")
  | .sameCore => some (require (system.cores.length > 1) "only one core available")
  | .sameComplex => some (require (system.complexes > 1) "only one complex available")
  | .sameNode => some (require (system.nodes.length > 1) "only one node available")
  | .unpinned => some (.ok ())

/-- The mask that both processes of `ping_pong` run with. -/
def pingPongMask (system : System) : WakeType → Option CpuSet
  | .sameHyperthread => do
      let core ← system.cores.head?
      let ht ← core.hyperthreads.head?
      ht.mask
  | .sameCore => do
      let core ← system.cores.head?
      core.mask
  | .sameComplex => do
      let node ← system.nodes.head?
      let complex ← node.complexes.head?
      complex.mask
  | .sameNode => do
      let node ← system.nodes.head?
      node.mask
  | .unpinned => system.mask

/-- The constraint of `come_together`. -/
def needsNumaOrComplexes (system : System) : Option (Except String Unit) :=
  if system.nodes.length > 1 then some (.ok ())
  else do
    let node ← system.nodes.head?
    some (require (node.complexes.length > 1) "test requires multiple nodes or complexes")

/-- The masks of the pinned processes of `fairness`; as many others float. -/
def fairnessMasks (system : System) : List (Option CpuSet) :=
  system.cores.flatMap fun core => core.hyperthreads.map Hyperthread.mask

/-! ## No part is empty -/

/-- Every part of some nodes has a part. -/
structure Filled (nodes : List Node) : Prop where
  complexes : ∀ node ∈ nodes, node.complexes ≠ []
  cores : ∀ node ∈ nodes, ∀ complex ∈ node.complexes, complex.cores ≠ []
  hyperthreads : ∀ core ∈ nodes.flatMap Node.cores, core.hyperthreads ≠ []

section Filled

/-- Every core has a CPU. -/
def FilledCores : CoreMap → Prop :=
  SortedMap.Forall (· ≠ [])

/-- Every complex has a core, which has a CPU. -/
def FilledComplexes : ComplexMap → Prop :=
  SortedMap.Forall fun cores => cores.entries ≠ [] ∧ FilledCores cores

/-- Every node has a complex, and so on. -/
def FilledNodes : TopologyMap → Prop :=
  SortedMap.Forall fun complexes => complexes.entries ≠ [] ∧ FilledComplexes complexes

theorem FilledCores.add {cores : CoreMap} (filled : FilledCores cores) (core cpuId : Int) :
    FilledCores (cores.upsert core [] fun cpuIds => cpuIds ++ [cpuId]) :=
  SortedMap.Forall.upsert filled trivial (fun _ _ => trivial)
    fun cpuIds _ => List.concat_ne_nil cpuId cpuIds

theorem FilledComplexes.add {complexes : ComplexMap} (filled : FilledComplexes complexes)
    (complex core cpuId : Int) :
    FilledComplexes (complexes.upsert complex SortedMap.empty fun cores =>
      cores.upsert core [] fun cpuIds => cpuIds ++ [cpuId]) :=
  SortedMap.Forall.upsert filled (SortedMap.forall_empty _) (fun _ => And.right)
    fun _ below => ⟨SortedMap.upsert_ne_nil _ _ _ _, FilledCores.add below core cpuId⟩

theorem filledNodes_addCpu {topology : TopologyMap} (filled : FilledNodes topology)
    (cpu : Int × Place) : FilledNodes (addCpu topology cpu) :=
  SortedMap.Forall.upsert filled (SortedMap.forall_empty _) (fun _ => And.right)
    fun _ below => ⟨SortedMap.upsert_ne_nil _ _ _ _, FilledComplexes.add below _ _ _⟩

theorem filled_buildNodes {topology : TopologyMap} (filled : FilledNodes topology) :
    Filled (buildNodes topology) := by
  constructor
  case complexes =>
    intro node has
    obtain ⟨entry, member, rfl⟩ := List.mem_map.mp has
    exact mt List.map_eq_nil_iff.mp (filled entry member).1
  case cores =>
    intro node has complex under
    obtain ⟨entry, member, rfl⟩ := List.mem_map.mp has
    obtain ⟨inner, below, rfl⟩ := List.mem_map.mp under
    exact mt List.map_eq_nil_iff.mp ((filled entry member).2 inner below).1
  case hyperthreads =>
    intro core has
    obtain ⟨node, hasNode, hasCore⟩ := List.mem_flatMap.mp has
    obtain ⟨complex, hasComplex, inComplex⟩ := List.mem_flatMap.mp hasCore
    obtain ⟨entry, member, rfl⟩ := List.mem_map.mp hasNode
    obtain ⟨inner, below, rfl⟩ := List.mem_map.mp hasComplex
    obtain ⟨cpuIds, last, rfl⟩ := List.mem_map.mp inComplex
    exact mt List.map_eq_nil_iff.mp (((filled entry member).2 inner below).2 cpuIds last)

theorem filled_build (cpus : List (Int × Place)) : Filled (build cpus).nodes := by
  apply filled_buildNodes
  apply List.foldlRecOn cpus
  · exact List.forall_mem_nil _
  · exact fun topology filled cpu _ => filledNodes_addCpu filled cpu

end Filled

/-! ## Proper parts -/

/-- The CPUs of the first hyperthread, core, complex or node of a system. -/
inductive Level (system : System) : WakeType → List Int → Prop
  | sameHyperthread {core : Core} {ht : Hyperthread} : system.cores.head? = some core →
      core.hyperthreads.head? = some ht → Level system .sameHyperthread [ht.id]
  | sameCore {core : Core} : system.cores.head? = some core →
      Level system .sameCore core.cpuIds
  | sameComplex {node : Node} {complex : CoreComplex} : system.nodes.head? = some node →
      node.complexes.head? = some complex → Level system .sameComplex complex.cpuIds
  | sameNode {node : Node} : system.nodes.head? = some node →
      Level system .sameNode node.cpuIds
  | unpinned : Level system .unpinned system.cpuIds

/-- A mask has just these CPUs, which are some of a system but not all. -/
structure Restricts (system : System) (mask : Option CpuSet) (ids : List Int) : Prop where
  exact_ : Exact mask ids
  nonempty : ids ≠ []
  within : ids ⊆ system.cpuIds
  proper : ∃ other ∈ system.cpuIds, other ∉ ids

/-- The first of several parts, none of which is empty and no two of which share an id, does
not have all ids. -/
theorem exists_outside {α : Type} {ids : α → List Int} {first second : α} {rest : List α}
    (distinct : ((first :: second :: rest).flatMap ids).Nodup) (some : ids second ≠ []) :
    ∃ other ∈ (first :: second :: rest).flatMap ids, other ∉ ids first := by
  obtain ⟨other, has⟩ := List.exists_mem_of_ne_nil _ some
  have later : other ∈ (second :: rest).flatMap ids :=
    List.mem_flatMap.mpr ⟨second, List.mem_cons_self, has⟩
  rw [List.flatMap_cons, List.nodup_append'] at distinct
  refine ⟨other, ?_, fun inFirst => distinct.2.2 inFirst later⟩
  rw [List.flatMap_cons]
  exact List.mem_append_right _ later

section System

variable {cpus : List (Int × Place)}

theorem nodup_cpuIds (distinct : (cpus.map Prod.fst).Nodup) : (build cpus).cpuIds.Nodup :=
  (cpuIds_build_perm cpus).nodup_iff.mpr distinct

theorem cores_flatMap_perm (nodes : List Node) :
    ((System.new nodes).cores.flatMap Core.cpuIds).Perm (System.new nodes).cpuIds := by
  have permuted := (cores_perm nodes).flatMap_right Core.cpuIds
  have same : (nodes.flatMap Node.cores).flatMap Core.cpuIds = (System.new nodes).cpuIds := by
    simp only [System.cpuIds_eq, Node.cores, List.flatMap_assoc]
    rfl
  exact same ▸ permuted

theorem Core.cpuIds_ne_nil {core : Core} (hasCore : core ∈ (build cpus).cores) :
    core.cpuIds ≠ [] := by
  have filled := (filled_build cpus).hyperthreads core ((cores_perm _).mem_iff.mp hasCore)
  exact mt List.map_eq_nil_iff.mp filled

theorem flatMap_ne_nil {α : Type} {ids : α → List Int} {children : List α} {child : α}
    (has : child ∈ children) (some : ids child ≠ []) : children.flatMap ids ≠ [] := by
  obtain ⟨id, under⟩ := List.exists_mem_of_ne_nil _ some
  exact List.ne_nil_of_mem (List.mem_flatMap.mpr ⟨child, has, under⟩)

theorem CoreComplex.cpuIds_ne_nil {node : Node} (hasNode : node ∈ (build cpus).nodes)
    {complex : CoreComplex} (hasComplex : complex ∈ node.complexes) : complex.cpuIds ≠ [] := by
  have filled := filled_build cpus
  obtain ⟨core, hasCore⟩ :=
    List.exists_mem_of_ne_nil _ (filled.cores node hasNode complex hasComplex)
  have inSystem : core ∈ (build cpus).nodes.flatMap Node.cores :=
    List.mem_flatMap.mpr ⟨node, hasNode, List.mem_flatMap.mpr ⟨complex, hasComplex, hasCore⟩⟩
  exact flatMap_ne_nil hasCore (mt List.map_eq_nil_iff.mp (filled.hyperthreads core inSystem))

theorem Node.cpuIds_ne_nil {node : Node} (hasNode : node ∈ (build cpus).nodes) :
    node.cpuIds ≠ [] := by
  obtain ⟨complex, hasComplex⟩ :=
    List.exists_mem_of_ne_nil _ ((filled_build cpus).complexes node hasNode)
  exact flatMap_ne_nil hasComplex (CoreComplex.cpuIds_ne_nil hasNode hasComplex)

/-- The mask of the first of several parts restricts. -/
theorem restricts_of_first {system : System} {α : Type} (ids : α → List Int)
    {children : List α} {first : α} {mask : Option CpuSet} (isFirst : children.head? = some first)
    (several : children.length > 1) (exact_ : Exact mask (ids first))
    (distinct : (children.flatMap ids).Nodup) (some : ∀ child ∈ children, ids child ≠ [])
    (within : children.flatMap ids ⊆ system.cpuIds) : Restricts system mask (ids first) := by
  obtain ⟨rest, rfl⟩ := List.head?_eq_some_iff.mp isFirst
  cases rest with
  | nil => exact absurd several (lt_irrefl 1)
  | cons second rest =>
      obtain ⟨other, has, outside⟩ := exists_outside distinct
        (some second (List.mem_cons_of_mem _ List.mem_cons_self))
      refine ⟨exact_, some first List.mem_cons_self, ?_, other, within has, outside⟩
      intro id under
      exact within (List.mem_flatMap.mpr ⟨first, List.mem_cons_self, under⟩)

theorem require_eq_ok_iff {condition : Prop} [Decidable condition] {reason : String} :
    require condition reason = .ok () ↔ condition := by
  unfold require
  split
  · exact iff_of_true rfl ‹_›
  · exact iff_of_false (by simp) ‹_›

theorem head?_of_length {α : Type} {items : List α} (several : items.length > 1) :
    ∃ first, items.head? = some first := by
  cases items with
  | nil => cases several
  | cons first rest => exact ⟨first, rfl⟩

theorem sameHyperthread_restricts (distinct : (cpus.map Prod.fst).Nodup)
    (inSet : InSet (build cpus).cpuIds)
    (checked : checkWakeType (build cpus) .sameHyperthread = some (.ok ())) :
    ∃ ids, Level (build cpus) .sameHyperthread ids ∧
      Restricts (build cpus) (pingPongMask (build cpus) .sameHyperthread) ids := by
  simp only [checkWakeType, Option.bind_eq_bind, Option.bind_eq_some_iff, Option.some.injEq,
    require_eq_ok_iff] at checked
  obtain ⟨core, isFirst, several⟩ := checked
  obtain ⟨ht, isHead⟩ := head?_of_length several
  have hasCore : core ∈ (build cpus).cores := List.mem_of_head? isFirst
  have nodup := ((cores_flatMap_perm _).nodup_iff.mpr (nodup_cpuIds distinct))
  have singles : core.hyperthreads.flatMap (fun ht => [ht.id]) = core.cpuIds :=
    List.map_eq_flatMap.symm
  have within : core.cpuIds ⊆ (build cpus).cpuIds := fun id under =>
    mem_cores_flatMap_cpuIds.mp (List.mem_flatMap.mpr ⟨core, hasCore, under⟩)
  have exact_ : Exact ht.mask [ht.id] := Hyperthread.mask_exact <| inSet.of_subset fun id same => by
    rw [List.mem_singleton.mp same]
    exact within (List.mem_map_of_mem (List.mem_of_head? isHead))
  have mask : pingPongMask (build cpus) .sameHyperthread = ht.mask := by
    simp [pingPongMask, isFirst, isHead]
  rw [mask]
  refine ⟨[ht.id], .sameHyperthread isFirst isHead, ?_⟩
  apply restricts_of_first (fun ht => [ht.id]) isHead several exact_
  · rw [singles]
    exact (List.nodup_flatMap.mp nodup).1 core hasCore
  · exact fun _ _ => List.cons_ne_nil _ _
  · rw [singles]
    exact within

theorem sameCore_restricts (distinct : (cpus.map Prod.fst).Nodup)
    (inSet : InSet (build cpus).cpuIds)
    (checked : checkWakeType (build cpus) .sameCore = some (.ok ())) :
    ∃ ids, Level (build cpus) .sameCore ids ∧
      Restricts (build cpus) (pingPongMask (build cpus) .sameCore) ids := by
  simp only [checkWakeType, Option.some.injEq, require_eq_ok_iff] at checked
  obtain ⟨core, isFirst⟩ := head?_of_length checked
  have mask : pingPongMask (build cpus) .sameCore = core.mask := by
    simp [pingPongMask, isFirst]
  rw [mask]
  refine ⟨core.cpuIds, .sameCore isFirst, ?_⟩
  apply restricts_of_first Core.cpuIds isFirst checked
  · exact (Core.mask_exact ((InSet.cores inSet).child (List.mem_of_head? isFirst))).1
  · exact (cores_flatMap_perm _).nodup_iff.mpr (nodup_cpuIds distinct)
  · exact fun core hasCore => Core.cpuIds_ne_nil hasCore
  · exact fun id under => mem_cores_flatMap_cpuIds.mp under

theorem sameNode_restricts (distinct : (cpus.map Prod.fst).Nodup)
    (inSet : InSet (build cpus).cpuIds)
    (checked : checkWakeType (build cpus) .sameNode = some (.ok ())) :
    ∃ ids, Level (build cpus) .sameNode ids ∧
      Restricts (build cpus) (pingPongMask (build cpus) .sameNode) ids := by
  simp only [checkWakeType, Option.some.injEq, require_eq_ok_iff] at checked
  obtain ⟨node, isFirst⟩ := head?_of_length checked
  have mask : pingPongMask (build cpus) .sameNode = node.mask := by
    simp [pingPongMask, isFirst]
  rw [mask]
  refine ⟨node.cpuIds, .sameNode isFirst, ?_⟩
  apply restricts_of_first Node.cpuIds isFirst checked
  · exact (Node.mask_exact (InSet.child inSet (List.mem_of_head? isFirst))).1
  · exact nodup_cpuIds distinct
  · exact fun node hasNode => Node.cpuIds_ne_nil hasNode
  · exact fun id under => under

/-- The complexes of all nodes. -/
theorem complexes_eq_length (system : System) :
    system.complexes = (system.nodes.flatMap Node.complexes).length :=
  List.length_flatMap.symm

theorem head?_flatMap_complexes {nodes : List Node} {node : Node} {complex : CoreComplex}
    (isFirst : nodes.head? = some node) (isHead : node.complexes.head? = some complex) :
    (nodes.flatMap Node.complexes).head? = some complex := by
  obtain ⟨rest, rfl⟩ := List.head?_eq_some_iff.mp isFirst
  obtain ⟨others, first⟩ := List.head?_eq_some_iff.mp isHead
  simp [first]

theorem sameComplex_restricts (distinct : (cpus.map Prod.fst).Nodup)
    (inSet : InSet (build cpus).cpuIds)
    (checked : checkWakeType (build cpus) .sameComplex = some (.ok ())) :
    ∃ ids, Level (build cpus) .sameComplex ids ∧
      Restricts (build cpus) (pingPongMask (build cpus) .sameComplex) ids := by
  simp only [checkWakeType, Option.some.injEq, require_eq_ok_iff, complexes_eq_length] at checked
  have ids : ((build cpus).nodes.flatMap Node.complexes).flatMap CoreComplex.cpuIds =
      (build cpus).cpuIds := by
    rw [List.flatMap_assoc, System.cpuIds_eq]
    rfl
  obtain ⟨node, isFirst⟩ : ∃ node, (build cpus).nodes.head? = some node := by
    cases nodes : (build cpus).nodes with
    | nil => simp [nodes] at checked
    | cons node rest => exact ⟨node, rfl⟩
  have hasNode := List.mem_of_head? isFirst
  obtain ⟨complex, isHead⟩ : ∃ complex, node.complexes.head? = some complex :=
    ⟨_, List.head?_eq_some_head ((filled_build cpus).complexes node hasNode)⟩
  have mask : pingPongMask (build cpus) .sameComplex = complex.mask := by
    simp [pingPongMask, isFirst, isHead]
  rw [mask]
  refine ⟨complex.cpuIds, .sameComplex isFirst isHead, ?_⟩
  have nodeSet : InSet node.cpuIds := InSet.child inSet hasNode
  apply restricts_of_first CoreComplex.cpuIds (head?_flatMap_complexes isFirst isHead) checked
  · exact (CoreComplex.mask_exact (nodeSet.child (List.mem_of_head? isHead))).1
  · rw [ids]
    exact nodup_cpuIds distinct
  · intro complex has
    obtain ⟨node, hasNode, hasComplex⟩ := List.mem_flatMap.mp has
    exact CoreComplex.cpuIds_ne_nil hasNode hasComplex
  · rw [ids]
    exact fun id under => under

/-! ## Constraints -/

theorem cpuIds_eq_nil_iff : (build cpus).cpuIds = [] ↔ cpus = [] := by
  constructor
  · intro none
    have permuted := cpuIds_build_perm cpus
    rw [none] at permuted
    exact List.map_eq_nil_iff.mp (List.nil_perm.mp permuted)
  · rintro rfl
    rfl

theorem nodes_eq_nil_iff : (build cpus).nodes = [] ↔ (build cpus).cpuIds = [] := by
  constructor
  · intro none
    rw [System.cpuIds_eq, none, List.flatMap_nil]
  · intro none
    rw [cpuIds_eq_nil_iff.mp none]
    rfl

theorem cores_eq_nil_iff : (build cpus).cores = [] ↔ (build cpus).cpuIds = [] := by
  constructor
  · intro none
    have permuted := cores_flatMap_perm (buildNodes (cpus.foldl addCpu SortedMap.empty))
    change ((build cpus).cores.flatMap Core.cpuIds).Perm (build cpus).cpuIds at permuted
    rw [none, List.flatMap_nil] at permuted
    exact List.nil_perm.mp permuted
  · intro none
    rw [cpuIds_eq_nil_iff.mp none]
    rfl

/-- A system of several nodes has several complexes. -/
theorem needsNumaOrComplexes_eq (loaded : (build cpus).cpuIds ≠ []) :
    needsNumaOrComplexes (build cpus) = some (require ((build cpus).complexes > 1)
      "test requires multiple nodes or complexes") := by
  have filled := (filled_build cpus).complexes
  have nonempty := mt nodes_eq_nil_iff.mp loaded
  unfold needsNumaOrComplexes System.complexes
  cases nodes : (build cpus).nodes with
  | nil => exact absurd nodes nonempty
  | cons first rest =>
      rw [nodes] at filled
      have hasFirst := List.length_pos_iff.mpr (filled first List.mem_cons_self)
      cases rest with
      | nil => simp
      | cons second rest =>
          have hasSecond := List.length_pos_iff.mpr
            (filled second (List.mem_cons_of_mem _ List.mem_cons_self))
          have several :
              ((first :: second :: rest).map fun node => node.complexes.length).sum > 1 := by
            simp only [List.map_cons, List.sum_cons]
            omega
          rw [require, if_pos several, if_pos (by simp)]

theorem checkWakeType_eq_none_iff (wakeType : WakeType) :
    checkWakeType (build cpus) wakeType = none ↔
      wakeType = .sameHyperthread ∧ (build cpus).cpuIds = [] := by
  rw [← cores_eq_nil_iff]
  cases wakeType with
  | sameHyperthread => cases cores : (build cpus).cores <;> simp [checkWakeType, cores]
  | sameCore => simp [checkWakeType]
  | sameComplex => simp [checkWakeType]
  | sameNode => simp [checkWakeType]
  | unpinned => simp [checkWakeType]

/-! ## Fairness -/

theorem fairnessMasks_eq (system : System) : fairnessMasks system =
    (system.cores.flatMap Core.cpuIds).map fun id => Hyperthread.mask ⟨id⟩ := by
  simp [fairnessMasks, Core.cpuIds, List.map_flatMap, Function.comp_def]

theorem fairnessMasks_length : (fairnessMasks (build cpus)).length = (build cpus).logicalCpus := by
  rw [fairnessMasks_eq, List.length_map]
  exact (cores_flatMap_perm _).length_eq.trans (logicalCpus_eq _).symm

/-- Every CPU has exactly one process that is pinned to it. -/
theorem existsUnique_fairnessMask (distinct : (cpus.map Prod.fst).Nodup)
    (inSet : InSet (build cpus).cpuIds) {c : Nat} (has : (c : Int) ∈ (build cpus).cpuIds) :
    ∃! i : Nat, ∃ mask, (fairnessMasks (build cpus))[i]? = some mask ∧ HasBit mask c := by
  have permuted : ((build cpus).cores.flatMap Core.cpuIds).Perm (build cpus).cpuIds :=
    cores_flatMap_perm _
  have nodup := permuted.nodup_iff.mpr (nodup_cpuIds distinct)
  have range := inSet c has
  have bit : ∀ (i : Nat) (mask : Option CpuSet), (fairnessMasks (build cpus))[i]? = some mask →
      (HasBit mask c ↔ ((build cpus).cores.flatMap Core.cpuIds)[i]? = some (c : Int)) := by
    intro i mask at_
    rw [fairnessMasks_eq, List.getElem?_map, Option.map_eq_some_iff] at at_
    obtain ⟨id, found, rfl⟩ := at_
    have within : InSet [id] := inSet.of_subset fun other same => by
      rw [List.mem_singleton.mp same]
      exact permuted.mem_iff.mp (List.mem_of_getElem? found)
    rw [(Hyperthread.mask_exact within).2 c (by omega), found]
    simp [eq_comm]
  obtain ⟨i, found⟩ := List.mem_iff_getElem?.mp (permuted.mem_iff.mpr has)
  have mask : (fairnessMasks (build cpus))[i]? = some (Hyperthread.mask ⟨c⟩) := by
    rw [fairnessMasks_eq, List.getElem?_map, found, Option.map_some]
  refine ⟨i, ⟨_, mask, (bit i _ mask).mpr found⟩, ?_⟩
  rintro j ⟨other, at_, isBit⟩
  have same := (bit j other at_).mp isBit
  obtain ⟨inside, _⟩ := List.getElem?_eq_some_iff.mp same
  exact (List.getElem?_inj inside nodup).mp (same.trans found.symm)

/-! ## Placements -/

/-- Where the processes of the cases run. -/
structure Placed (system : System) : Prop where
  /-- A benchmark that is not ignored, and not the unpinned one, runs on the CPUs of its
  level, which are not all. -/
  restricts : ∀ wakeType, wakeType ≠ .unpinned →
    checkWakeType system wakeType = some (.ok ()) →
      ∃ ids, Level system wakeType ids ∧ Restricts system (pingPongMask system wakeType) ids
  unpinned : Exact (pingPongMask system .unpinned) system.cpuIds
  /-- Only the first core may be missing, on a system without CPUs. -/
  checks : ∀ wakeType, checkWakeType system wakeType = none ↔
    wakeType = .sameHyperthread ∧ system.cpuIds = []
  /-- Nodes and complexes are required where complexes are. -/
  together : system.cpuIds ≠ [] → needsNumaOrComplexes system =
    some (require (system.complexes > 1) "test requires multiple nodes or complexes")
  /-- As many processes are pinned as float. -/
  pinned : (fairnessMasks system).length = system.logicalCpus
  /-- Every CPU has exactly one of them. -/
  one : ∀ c : Nat, (c : Int) ∈ system.cpuIds →
    ∃! i : Nat, ∃ mask, (fairnessMasks system)[i]? = some mask ∧ HasBit mask c

theorem placed_build (distinct : (cpus.map Prod.fst).Nodup) (inSet : InSet (build cpus).cpuIds) :
    Placed (build cpus) := by
  constructor
  case restricts =>
    intro wakeType pinned checked
    cases wakeType with
    | sameHyperthread => exact sameHyperthread_restricts distinct inSet checked
    | sameCore => exact sameCore_restricts distinct inSet checked
    | sameComplex => exact sameComplex_restricts distinct inSet checked
    | sameNode => exact sameNode_restricts distinct inSet checked
    | unpinned => exact absurd rfl pinned
  case unpinned => exact (System.mask_exact inSet).1
  case checks => exact checkWakeType_eq_none_iff
  case together => exact needsNumaOrComplexes_eq
  case pinned => exact fairnessMasks_length
  case one => exact fun c has => existsUnique_fairnessMask distinct inSet has

end System

/-- The systems that are loaded, when all their CPUs have a bit in a `cpu_set_t`. -/
theorem cases_placed {numCpus : Int} {osError : String} {dirs : Nat → Option CpuDir}
    {system : System} (loads : load numCpus osError dirs = .ok system)
    (inSet : InSet system.cpuIds) : Placed system := by
  obtain ⟨cpus, distinct, rfl⟩ := load_eq_build loads
  exact placed_build distinct inSet

/-- Two packages of one core: the first is pinned to CPU 0. -/
theorem cases_placed_twoPackages : InSet twoPackages.cpuIds ∧
    Restricts twoPackages (pingPongMask twoPackages .sameNode) [0] ∧ Placed twoPackages := by
  have inSet : InSet twoPackages.cpuIds := by
    have ids : twoPackages.cpuIds = [0, 1] := rfl
    rw [ids]
    unfold InSet
    decide
  have placed := cases_placed load_twoPackages inSet
  obtain ⟨ids, level, restricts⟩ := placed.restricts .sameNode (by simp) rfl
  cases level with
  | sameNode isFirst =>
      cases isFirst
      exact ⟨inSet, restricts, placed⟩

end Schtest.Cases
