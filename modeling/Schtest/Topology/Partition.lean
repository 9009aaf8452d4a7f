import Schtest.Topology.Core

/-!
# The views of a system agree

The nested maps, the vectors that are built from them, the list of all cores
and the index of the CPUs all describe one partition of the CPUs: two CPUs are
in the same core, complex or node where their places agree that far.
-/

namespace Schtest.Topology

open Schtest.Collections

/-! ## What the nested maps hold -/

/-- The CPUs in the topology map, with the keys that lead to them. -/
def cells (topology : TopologyMap) : List (Int × Place) :=
  topology.entries.flatMap fun (node, complexes) =>
    complexes.entries.flatMap fun (complex, cores) =>
      cores.entries.flatMap fun (core, cpuIds) =>
        cpuIds.map fun cpuId => (cpuId, ⟨node, complex, core⟩)

theorem cells_addCpu_perm (topology : TopologyMap) (cpu : Int × Place) :
    (cells (addCpu topology cpu)).Perm (cpu :: cells topology) := by
  apply SortedMap.flatMap_upsert_perm topology rfl
  intro complexes
  apply SortedMap.flatMap_upsert_perm complexes rfl
  intro cores
  apply SortedMap.flatMap_upsert_perm cores rfl
  intro cpuIds
  simp only [List.map_append, List.map_cons, List.map_nil]
  exact List.perm_append_singleton _ _

/-- Each CPU is added once, under its own place. -/
theorem cells_foldl_perm (cpus : List (Int × Place)) (topology : TopologyMap) :
    (cells (cpus.foldl addCpu topology)).Perm (cpus ++ cells topology) := by
  induction cpus generalizing topology with
  | nil => exact List.Perm.refl _
  | cons cpu rest ih =>
      calc
        (cells (rest.foldl addCpu (addCpu topology cpu))).Perm
            (rest ++ cells (addCpu topology cpu)) := ih _
        List.Perm _ (rest ++ cpu :: cells topology) :=
          (cells_addCpu_perm topology cpu).append_left rest
        List.Perm _ (cpu :: rest ++ cells topology) := List.perm_middle

/-- The CPU ids at a position of the topology map, and the keys that lead there. -/
def Reaches (topology : TopologyMap) (index : Index) (place : Place) (cpuIds : List Int) : Prop :=
  ∃ complexes cores,
    topology.entries[index.1]? = some (place.node, complexes) ∧
      complexes.entries[index.2.1]? = some (place.complex, cores) ∧
        cores.entries[index.2.2]? = some (place.core, cpuIds)

theorem mem_cells_iff {topology : TopologyMap} {cpuId : Int} {place : Place} :
    (cpuId, place) ∈ cells topology ↔
      ∃ index cpuIds, Reaches topology index place cpuIds ∧ cpuId ∈ cpuIds := by
  constructor
  · intro member
    simp only [cells, List.mem_flatMap, List.mem_map, Prod.mk.injEq] at member
    obtain ⟨⟨node, complexes⟩, hasNode, ⟨complex, cores⟩, hasComplex, ⟨core, cpuIds⟩, hasCore,
      _, member, rfl, rfl⟩ := member
    obtain ⟨nodeIdx, atNode⟩ := List.mem_iff_getElem?.mp hasNode
    obtain ⟨complexIdx, atComplex⟩ := List.mem_iff_getElem?.mp hasComplex
    obtain ⟨coreIdx, atCore⟩ := List.mem_iff_getElem?.mp hasCore
    exact ⟨(nodeIdx, complexIdx, coreIdx), cpuIds,
      ⟨complexes, cores, atNode, atComplex, atCore⟩, member⟩
  · rintro ⟨index, cpuIds, ⟨complexes, cores, atNode, atComplex, atCore⟩, member⟩
    simp only [cells, List.mem_flatMap, List.mem_map]
    exact ⟨_, List.mem_of_getElem? atNode, _, List.mem_of_getElem? atComplex,
      _, List.mem_of_getElem? atCore, cpuId, member, rfl⟩

section Positions

variable {topology : TopologyMap} {index other : Index} {place otherPlace : Place}
  {cpuIds otherIds : List Int}

/-- Positions agree as far as the keys that lead to them. -/
theorem Reaches.node_iff (reaches : Reaches topology index place cpuIds)
    (reachesOther : Reaches topology other otherPlace otherIds) :
    index.1 = other.1 ↔ place.node = otherPlace.node := by
  obtain ⟨_, _, atNode, -, -⟩ := reaches
  obtain ⟨_, _, atOther, -, -⟩ := reachesOther
  exact topology.index_eq_iff atNode atOther

theorem Reaches.complex_iff (reaches : Reaches topology index place cpuIds)
    (reachesOther : Reaches topology other otherPlace otherIds) :
    index.1 = other.1 ∧ index.2.1 = other.2.1 ↔
      place.node = otherPlace.node ∧ place.complex = otherPlace.complex := by
  rw [← reaches.node_iff reachesOther]
  refine and_congr_right fun sameNode => ?_
  obtain ⟨complexes, _, atNode, atComplex, -⟩ := reaches
  obtain ⟨otherComplexes, _, atOther, atOtherComplex, -⟩ := reachesOther
  have sameMap : complexes = otherComplexes := by
    rw [sameNode, atOther] at atNode
    exact (Prod.mk.inj (Option.some.inj atNode)).2.symm
  subst sameMap
  exact complexes.index_eq_iff atComplex atOtherComplex

theorem Reaches.core_iff (reaches : Reaches topology index place cpuIds)
    (reachesOther : Reaches topology other otherPlace otherIds) :
    index = other ↔ place = otherPlace := by
  have cores : index.1 = other.1 ∧ index.2.1 = other.2.1 →
      (index.2.2 = other.2.2 ↔ place.core = otherPlace.core) := by
    rintro ⟨sameNode, sameComplex⟩
    obtain ⟨complexes, cores, atNode, atComplex, atCore⟩ := reaches
    obtain ⟨otherComplexes, otherCores, atOther, atOtherComplex, atOtherCore⟩ := reachesOther
    rw [sameNode, atOther] at atNode
    obtain rfl : complexes = otherComplexes := (Prod.mk.inj (Option.some.inj atNode)).2.symm
    rw [sameComplex, atOtherComplex] at atComplex
    obtain rfl : cores = otherCores := (Prod.mk.inj (Option.some.inj atComplex)).2.symm
    exact cores.index_eq_iff atCore atOtherCore
  obtain ⟨nodeIdx, complexIdx, coreIdx⟩ := index
  obtain ⟨otherNodeIdx, otherComplexIdx, otherCoreIdx⟩ := other
  obtain ⟨node, complex, core⟩ := place
  obtain ⟨otherNode, otherComplex, otherCore⟩ := otherPlace
  have complexes := reaches.complex_iff reachesOther
  simp only [Prod.mk.injEq, Place.mk.injEq] at complexes cores ⊢
  tauto

end Positions

/-! ## What the vectors hold -/

namespace System

variable (system : System)

/-- A CPU is a hyperthread of the core at a position. -/
def Holds (index : Index) (cpuId : Int) : Prop :=
  ∃ core, system.coreAt index = some core ∧ ⟨cpuId⟩ ∈ core.hyperthreads

/-- The two CPUs are in one core. -/
def SameCore (first second : Int) : Prop :=
  ∃ node complex core,
    system.Holds (node, complex, core) first ∧ system.Holds (node, complex, core) second

/-- The two CPUs are in one complex. -/
def SameComplex (first second : Int) : Prop :=
  ∃ node complex core otherCore,
    system.Holds (node, complex, core) first ∧ system.Holds (node, complex, otherCore) second

/-- The two CPUs are in one node. -/
def SameNode (first second : Int) : Prop :=
  ∃ node complex core otherComplex otherCore,
    system.Holds (node, complex, core) first ∧ system.Holds (node, otherComplex, otherCore) second

/-- The ids of all hyperthreads. -/
def cpuIds : List Int :=
  system.nodes.flatMap fun node =>
    node.complexes.flatMap fun complex =>
      complex.cores.flatMap fun core => core.hyperthreads.map Hyperthread.id

end System

variable {topology : TopologyMap} {index : Index} {place : Place} {cpuIds : List Int}

/-- The vectors have the positions of the maps. -/
theorem Reaches.found (reaches : Reaches topology index place cpuIds) :
    ∃ node complex,
      (System.new (buildNodes topology)).nodeAt index = some node ∧ node.id = place.node ∧
        (System.new (buildNodes topology)).complexAt index = some complex ∧
          complex.id = place.complex ∧
            (System.new (buildNodes topology)).coreAt index =
              some (buildCore (place.core, cpuIds)) := by
  obtain ⟨complexes, cores, atNode, atComplex, atCore⟩ := reaches
  refine ⟨buildNode (place.node, complexes), buildComplex (place.complex, cores), ?_⟩
  have hasNode : (System.new (buildNodes topology)).nodeAt index =
      some (buildNode (place.node, complexes)) := by
    simp [System.nodeAt, System.new, buildNodes, atNode]
  have hasComplex : (System.new (buildNodes topology)).complexAt index =
      some (buildComplex (place.complex, cores)) := by
    simp [System.complexAt, hasNode, buildNode, atComplex]
  have hasCore : (System.new (buildNodes topology)).coreAt index =
      some (buildCore (place.core, cpuIds)) := by
    simp [System.coreAt, hasComplex, buildComplex, atCore]
  exact ⟨hasNode, rfl, hasComplex, rfl, hasCore⟩

theorem exists_reaches_of_coreAt {core : Core}
    (found : (System.new (buildNodes topology)).coreAt index = some core) :
    ∃ place cpuIds, Reaches topology index place cpuIds ∧
      core = buildCore (place.core, cpuIds) := by
  simp only [System.coreAt, System.complexAt, System.nodeAt, System.new, buildNodes,
    Option.bind_eq_bind, Option.bind_eq_some_iff, List.getElem?_map, Option.map_eq_some_iff]
    at found
  obtain ⟨_, ⟨_, ⟨⟨node, complexes⟩, atNode, rfl⟩, hasComplex⟩, hasCore⟩ := found
  simp only [buildNode, List.getElem?_map, Option.map_eq_some_iff] at hasComplex
  obtain ⟨⟨complex, cores⟩, atComplex, rfl⟩ := hasComplex
  simp only [buildComplex, List.getElem?_map, Option.map_eq_some_iff] at hasCore
  obtain ⟨⟨coreId, cpuIds⟩, atCore, rfl⟩ := hasCore
  exact ⟨⟨node, complex, coreId⟩, cpuIds, ⟨complexes, cores, atNode, atComplex, atCore⟩, rfl⟩

/-- A position holds the CPUs that the maps lead to there. -/
theorem holds_iff {cpuId : Int} :
    (System.new (buildNodes topology)).Holds index cpuId ↔
      ∃ place cpuIds, Reaches topology index place cpuIds ∧ cpuId ∈ cpuIds := by
  constructor
  · rintro ⟨core, found, member⟩
    obtain ⟨place, cpuIds, reaches, rfl⟩ := exists_reaches_of_coreAt found
    exact ⟨place, cpuIds, reaches, by simpa [buildCore] using member⟩
  · rintro ⟨place, cpuIds, reaches, member⟩
    obtain ⟨_, _, -, -, -, -, found⟩ := reaches.found
    exact ⟨_, found, by simpa [buildCore] using member⟩

/-- The loops of `System::new` visit what the positions hold. -/
theorem mem_indexed_iff {nodes : List Node} {cpuId : Int} :
    (cpuId, index) ∈ indexed nodes ↔ (System.new nodes).Holds index cpuId := by
  obtain ⟨nodeIdx, complexIdx, coreIdx⟩ := index
  simp only [indexed, System.Holds, System.coreAt, System.complexAt, System.nodeAt, System.new,
    Option.bind_eq_bind, Option.bind_eq_some_iff, List.mem_flatMap, List.mem_map, Prod.exists,
    List.mem_zipIdx_iff_getElem?]
  constructor
  · rintro ⟨node, _, atNode, complex, _, atComplex, core, _, atCore, ⟨_⟩, member, eq⟩
    simp only [Prod.mk.injEq] at eq
    obtain ⟨rfl, rfl, rfl, rfl⟩ := eq
    exact ⟨core, ⟨complex, ⟨node, atNode, atComplex⟩, atCore⟩, member⟩
  · rintro ⟨core, ⟨complex, ⟨node, atNode, atComplex⟩, atCore⟩, member⟩
    exact ⟨node, _, atNode, complex, _, atComplex, core, _, atCore, _, member, rfl⟩

/-- Positions do not matter to what only looks at the values. -/
theorem map_flatMap_zipIdx {α β γ : Type} (items : α × Nat → List β) (select : β → γ)
    (selected : α → List γ) (all : ∀ value i, (items (value, i)).map select = selected value)
    (values : List α) :
    (values.zipIdx.flatMap items).map select = values.flatMap selected := by
  rw [List.map_flatMap, List.flatMap_congr fun pair _ => all pair.1 pair.2]
  conv_rhs => rw [← List.zipIdx_map_fst 0 values, List.flatMap_map]

theorem map_fst_indexed (nodes : List Node) :
    (indexed nodes).map Prod.fst = (System.new nodes).cpuIds := by
  refine map_flatMap_zipIdx _ _ _ (fun node nodeIdx => ?_) nodes
  refine map_flatMap_zipIdx _ _ _ (fun complex complexIdx => ?_) node.complexes
  refine map_flatMap_zipIdx _ _ _ (fun core coreIdx => ?_) complex.cores
  rw [List.map_map]
  rfl

theorem cpuIds_buildNodes (topology : TopologyMap) :
    (System.new (buildNodes topology)).cpuIds = (cells topology).map Prod.fst := by
  simp only [System.cpuIds, System.new, buildNodes, buildNode, buildComplex, buildCore, cells,
    List.flatMap_map, List.map_flatMap, List.map_map]
  rfl

theorem cores_perm (nodes : List Node) :
    (System.new nodes).cores.Perm (nodes.flatMap Node.cores) :=
  List.perm_insertionSort _ _

theorem cores_sorted (nodes : List Node) :
    (System.new nodes).cores.Pairwise fun first second => first.id ≤ second.id :=
  List.pairwise_insertionSort _ _

theorem logicalCpus_eq (nodes : List Node) :
    (System.new nodes).logicalCpus = (System.new nodes).cpuIds.length := by
  calc
    (System.new nodes).logicalCpus
        = ((nodes.flatMap Node.cores).map fun core => core.hyperthreads.length).sum :=
          ((cores_perm nodes).map _).sum_nat
    _ = ((nodes.flatMap Node.cores).flatMap
          fun core => core.hyperthreads.map Hyperthread.id).length := by
        simp [List.length_flatMap]
    _ = (System.new nodes).cpuIds.length := by
        simp [System.cpuIds, System.new, Node.cores, List.flatMap_assoc]

/-! ## The system of some CPUs -/

section Build

variable {cpus : List (Int × Place)}

theorem cells_build_perm (cpus : List (Int × Place)) :
    (cells (cpus.foldl addCpu SortedMap.empty)).Perm cpus := by
  simpa [cells, SortedMap.empty] using cells_foldl_perm cpus SortedMap.empty

theorem cpuIds_build_perm (cpus : List (Int × Place)) :
    (build cpus).cpuIds.Perm (cpus.map Prod.fst) := by
  unfold build
  rw [cpuIds_buildNodes]
  exact (cells_build_perm cpus).map Prod.fst

theorem exists_reaches {cpu : Int × Place} (member : cpu ∈ cpus) :
    ∃ index cpuIds, Reaches (cpus.foldl addCpu SortedMap.empty) index cpu.2 cpuIds ∧
      cpu.1 ∈ cpuIds :=
  mem_cells_iff.mp ((cells_build_perm cpus).mem_iff.mpr member)

/-- A position that holds a CPU is the one that the place of the CPU leads to. -/
theorem reaches_of_holds (distinct : (cpus.map Prod.fst).Nodup) {cpu : Int × Place}
    (member : cpu ∈ cpus) {index : Index} (holds : (build cpus).Holds index cpu.1) :
    ∃ cpuIds, Reaches (cpus.foldl addCpu SortedMap.empty) index cpu.2 cpuIds ∧
      cpu.1 ∈ cpuIds := by
  obtain ⟨place, cpuIds, reaches, hasCpu⟩ := holds_iff.mp holds
  have placed : (cpu.1, place) ∈ cpus :=
    (cells_build_perm cpus).mem_iff.mp (mem_cells_iff.mpr ⟨index, cpuIds, reaches, hasCpu⟩)
  have same : (cpu.1, place) = cpu := List.inj_on_of_nodup_map distinct placed member rfl
  rw [← same]
  exact ⟨cpuIds, reaches, hasCpu⟩

theorem existsUnique_holds (distinct : (cpus.map Prod.fst).Nodup) {cpu : Int × Place}
    (member : cpu ∈ cpus) : ∃! index, (build cpus).Holds index cpu.1 := by
  obtain ⟨index, cpuIds, reaches, hasCpu⟩ := exists_reaches member
  refine ⟨index, holds_iff.mpr ⟨cpu.2, cpuIds, reaches, hasCpu⟩, ?_⟩
  intro other holds
  obtain ⟨_, reachesOther, -⟩ := reaches_of_holds distinct member holds
  exact (reachesOther.core_iff reaches).mpr rfl

section Pairs

variable {first second : Int × Place}

theorem sameCore_iff (distinct : (cpus.map Prod.fst).Nodup) (hasFirst : first ∈ cpus)
    (hasSecond : second ∈ cpus) :
    (build cpus).SameCore first.1 second.1 ↔ first.2 = second.2 := by
  obtain ⟨index, _, reaches, hasCpu⟩ := exists_reaches hasFirst
  obtain ⟨other, _, reachesOther, hasOther⟩ := exists_reaches hasSecond
  constructor
  · rintro ⟨node, complex, core, holdsFirst, holdsSecond⟩
    obtain ⟨_, atFirst, -⟩ := reaches_of_holds distinct hasFirst holdsFirst
    obtain ⟨_, atSecond, -⟩ := reaches_of_holds distinct hasSecond holdsSecond
    exact (atFirst.core_iff atSecond).mp rfl
  · intro same
    obtain rfl : index = other := (reaches.core_iff reachesOther).mpr same
    exact ⟨_, _, _, holds_iff.mpr ⟨_, _, reaches, hasCpu⟩,
      holds_iff.mpr ⟨_, _, reachesOther, hasOther⟩⟩

theorem sameComplex_iff (distinct : (cpus.map Prod.fst).Nodup) (hasFirst : first ∈ cpus)
    (hasSecond : second ∈ cpus) :
    (build cpus).SameComplex first.1 second.1 ↔
      first.2.node = second.2.node ∧ first.2.complex = second.2.complex := by
  obtain ⟨⟨i, j, k⟩, _, reaches, hasCpu⟩ := exists_reaches hasFirst
  obtain ⟨⟨i', j', k'⟩, _, reachesOther, hasOther⟩ := exists_reaches hasSecond
  constructor
  · rintro ⟨node, complex, core, otherCore, holdsFirst, holdsSecond⟩
    obtain ⟨_, atFirst, -⟩ := reaches_of_holds distinct hasFirst holdsFirst
    obtain ⟨_, atSecond, -⟩ := reaches_of_holds distinct hasSecond holdsSecond
    exact (atFirst.complex_iff atSecond).mp ⟨rfl, rfl⟩
  · intro same
    obtain ⟨rfl, rfl⟩ : i = i' ∧ j = j' := (reaches.complex_iff reachesOther).mpr same
    exact ⟨_, _, _, _, holds_iff.mpr ⟨_, _, reaches, hasCpu⟩,
      holds_iff.mpr ⟨_, _, reachesOther, hasOther⟩⟩

theorem sameNode_iff (distinct : (cpus.map Prod.fst).Nodup) (hasFirst : first ∈ cpus)
    (hasSecond : second ∈ cpus) :
    (build cpus).SameNode first.1 second.1 ↔ first.2.node = second.2.node := by
  obtain ⟨⟨i, j, k⟩, _, reaches, hasCpu⟩ := exists_reaches hasFirst
  obtain ⟨⟨i', j', k'⟩, _, reachesOther, hasOther⟩ := exists_reaches hasSecond
  constructor
  · rintro ⟨node, complex, core, otherComplex, otherCore, holdsFirst, holdsSecond⟩
    obtain ⟨_, atFirst, -⟩ := reaches_of_holds distinct hasFirst holdsFirst
    obtain ⟨_, atSecond, -⟩ := reaches_of_holds distinct hasSecond holdsSecond
    exact (atFirst.node_iff atSecond).mp rfl
  · intro same
    obtain rfl : i = i' := (reaches.node_iff reachesOther).mpr same
    exact ⟨_, _, _, _, _, holds_iff.mpr ⟨_, _, reaches, hasCpu⟩,
      holds_iff.mpr ⟨_, _, reachesOther, hasOther⟩⟩

end Pairs

end Build

/-! ## The index -/

/-- A CPU is found through the index, and what is found there is nested. -/
structure Located (system : System) (cpuId : Int) (index : Index) (node : Node)
    (complex : CoreComplex) (core : Core) : Prop where
  recorded : system.cpuToTopology.find? cpuId = some index
  atNode : system.nodeAt index = some node
  atComplex : system.complexAt index = some complex
  atCore : system.coreAt index = some core
  hasNode : node ∈ system.nodes
  hasComplex : complex ∈ node.complexes
  hasCore : core ∈ complex.cores
  hasHyperthread : ⟨cpuId⟩ ∈ core.hyperthreads
  currentNode : system.currentNode (.ok cpuId) = some (.ok node)
  currentComplex : system.currentComplex (.ok cpuId) = some (.ok complex)
  currentCore : system.currentCore (.ok cpuId) = some (.ok core)
  currentHyperthread : system.currentHyperthread (.ok cpuId) = some (.ok ⟨cpuId⟩)

/-- What is recorded for a CPU leads to all its parents. -/
theorem exists_located {system : System} {cpuId : Int} {index : Index}
    (recorded : system.cpuToTopology.find? cpuId = some index)
    (holds : system.Holds index cpuId) :
    ∃ node complex core, Located system cpuId index node complex core := by
  obtain ⟨core, atCore, member⟩ := holds
  obtain ⟨complex, atComplex, hasCore⟩ := Option.bind_eq_some_iff.mp atCore
  obtain ⟨node, atNode, hasComplex⟩ := Option.bind_eq_some_iff.mp atComplex
  have first : core.hyperthreads.find? (fun ht => ht.id = cpuId) = some ⟨cpuId⟩ := by
    cases found : core.hyperthreads.find? (fun ht => ht.id = cpuId) with
    | none => simpa using List.find?_eq_none.mp found ⟨cpuId⟩ member
    | some ht =>
        obtain ⟨id⟩ := ht
        simpa using List.find?_some found
  refine ⟨node, complex, core, ?_⟩
  exact
    { recorded := recorded
      atNode := atNode
      atComplex := atComplex
      atCore := atCore
      hasNode := List.mem_of_getElem? atNode
      hasComplex := List.mem_of_getElem? hasComplex
      hasCore := List.mem_of_getElem? hasCore
      hasHyperthread := member
      currentNode := by simp [System.currentNode, System.lookup, recorded, atNode]
      currentComplex := by simp [System.currentComplex, System.lookup, recorded, atComplex]
      currentCore := by simp [System.currentCore, System.lookup, recorded, atCore]
      currentHyperthread := by
        simp [System.currentHyperthread, System.lookup, recorded, atCore, first] }

theorem find?_cpuToTopology {nodes : List Node} (distinct : (System.new nodes).cpuIds.Nodup)
    {index : Index} {cpuId : Int} (holds : (System.new nodes).Holds index cpuId) :
    (System.new nodes).cpuToTopology.find? cpuId = some index := by
  rw [← map_fst_indexed] at distinct
  exact SortedMap.find?_insertAll SortedMap.empty distinct (mem_indexed_iff.mpr holds)

/-- The views of a system agree with each other and with the places of its CPUs. -/
structure IsPartition (cpus : List (Int × Place)) (system : System) : Prop where
  all : system.cpuIds.Perm (cpus.map Prod.fst)
  one : ∀ cpu ∈ cpus, ∃! index, system.Holds index cpu.1
  sameCore : ∀ first ∈ cpus, ∀ second ∈ cpus,
    (system.SameCore first.1 second.1 ↔ first.2 = second.2)
  sameComplex : ∀ first ∈ cpus, ∀ second ∈ cpus,
    (system.SameComplex first.1 second.1 ↔
      first.2.node = second.2.node ∧ first.2.complex = second.2.complex)
  sameNode : ∀ first ∈ cpus, ∀ second ∈ cpus,
    (system.SameNode first.1 second.1 ↔ first.2.node = second.2.node)
  cores : system.cores.Perm (system.nodes.flatMap Node.cores)
  sorted : system.cores.Pairwise fun first second => first.id ≤ second.id
  count : system.logicalCpus = cpus.length
  located : ∀ cpu ∈ cpus, ∃ index node complex core,
    Located system cpu.1 index node complex core

theorem isPartition_build {cpus : List (Int × Place)} (distinct : (cpus.map Prod.fst).Nodup) :
    IsPartition cpus (build cpus) where
  all := cpuIds_build_perm cpus
  one := fun _ => existsUnique_holds distinct
  sameCore := fun _ hasFirst _ => sameCore_iff distinct hasFirst
  sameComplex := fun _ hasFirst _ => sameComplex_iff distinct hasFirst
  sameNode := fun _ hasFirst _ => sameNode_iff distinct hasFirst
  cores := cores_perm _
  sorted := cores_sorted _
  count := by
    calc
      (build cpus).logicalCpus = (build cpus).cpuIds.length := logicalCpus_eq _
      _ = (cpus.map Prod.fst).length := (cpuIds_build_perm cpus).length_eq
      _ = cpus.length := List.length_map _
  located := by
    intro cpu member
    obtain ⟨index, holds, -⟩ := existsUnique_holds distinct member
    have recorded : (build cpus).cpuToTopology.find? cpu.1 = some index :=
      find?_cpuToTopology ((cpuIds_build_perm cpus).nodup_iff.mpr distinct) holds
    obtain ⟨node, complex, core, located⟩ := exists_located recorded holds
    exact ⟨index, node, complex, core, located⟩

/-- Two packages with equal ids below them. -/
theorem isPartition_twoPackages :
    IsPartition [(0, ⟨0, 0, 0⟩), (1, ⟨1, 0, 0⟩), (2, ⟨0, 0, 0⟩)]
      (build [(0, ⟨0, 0, 0⟩), (1, ⟨1, 0, 0⟩), (2, ⟨0, 0, 0⟩)]) :=
  isPartition_build (by decide)

end Schtest.Topology
