import Schtest.Collections.SortedMap
import Mathlib.Algebra.Group.Int.Defs
import Mathlib.Algebra.GroupWithZero.Nat
import Mathlib.Data.List.Sort

/-!
# The topology of the system

`System::load` reads where each CPU sits from `/sys/devices/system/cpu`, sorts
the CPUs into nested maps by package, complex and core, and turns these into
vectors.  `System::new` then lists all cores by their ids and records for every
CPU the indices that lead to its core.
-/

namespace Schtest.Topology

open Schtest.Collections

/-! ## The data model -/

/-- `Hyperthread`: a logical CPU. -/
structure Hyperthread where
  id : Int
  deriving DecidableEq, Repr

/-- `Core`: a physical core. -/
structure Core where
  id : Int
  hyperthreads : List Hyperthread
  deriving DecidableEq, Repr

/-- `CoreComplex`: the cores that share a last-level cache. -/
structure CoreComplex where
  id : Int
  cores : List Core
  deriving DecidableEq, Repr

/-- `Node`: a package. -/
structure Node where
  id : Int
  complexes : List CoreComplex
  deriving DecidableEq, Repr

/-- All cores of a node. -/
def Node.cores (node : Node) : List Core :=
  node.complexes.flatMap CoreComplex.cores

/-- The position of a core: its node, its complex there, and itself in the complex. -/
abbrev Index := Nat × Nat × Nat

/-- `System`, with its table from the ids of the logical CPUs to their places. -/
structure System where
  nodes : List Node
  allCores : List Core
  cpuToTopology : SortedMap Int Index

/-! ## Building a system from its nodes -/

/-- The CPUs with their positions, in the order of the nested loops. -/
def indexed (nodes : List Node) : List (Int × Index) :=
  nodes.zipIdx.flatMap fun (node, nodeIdx) =>
    node.complexes.zipIdx.flatMap fun (complex, complexIdx) =>
      complex.cores.zipIdx.flatMap fun (core, coreIdx) =>
        core.hyperthreads.map fun ht => (ht.id, nodeIdx, complexIdx, coreIdx)

/-- `System::new`: the cores are sorted by their ids, and later CPUs of an id win. -/
def System.new (nodes : List Node) : System where
  nodes := nodes
  allCores := (nodes.flatMap Node.cores).insertionSort fun a b => a.id ≤ b.id
  cpuToTopology := SortedMap.empty.insertAll (indexed nodes)

namespace System

variable (system : System)

/-- `System::cores`. -/
def cores : List Core :=
  system.allCores

/-- The number of logical CPUs. -/
def logicalCpus : Nat :=
  (system.allCores.map fun core => core.hyperthreads.length).sum

/-- The number of complexes. -/
def complexes : Nat :=
  (system.nodes.map fun node => node.complexes.length).sum

/-! ## The place of the current CPU

An index outside of its vector panics, which is `none`. -/

/-- `self.nodes[node_idx]`. -/
def nodeAt (index : Index) : Option Node :=
  system.nodes[index.1]?

/-- `self.nodes[node_idx].complexes()[complex_idx]`. -/
def complexAt (index : Index) : Option CoreComplex := do
  let node ← system.nodeAt index
  node.complexes[index.2.1]?

/-- `self.nodes[node_idx].complexes()[complex_idx].cores()[core_idx]`. -/
def coreAt (index : Index) : Option Core := do
  let complex ← system.complexAt index
  complex.cores[index.2.2]?

/-- Look the current CPU up.  What is found at its indices may still be nothing. -/
def lookup {α : Type} (what : String) (found : Int → Index → Option (Option α))
    (currentCpu : Except String Int) : Option (Except String α) :=
  match currentCpu with
  | .error error => some (.error error)
  | .ok cpuId =>
      let missing := Except.error ("failed to find " ++ what ++ " for CPU " ++ toString cpuId)
      match system.cpuToTopology.find? cpuId with
      | none => some missing
      | some index =>
          (found cpuId index).map fun answer =>
            match answer with
            | none => missing
            | some answer => .ok answer

/-- `System::current_hyperthread`, by the answer of `current_cpu`. -/
def currentHyperthread : Except String Int → Option (Except String Hyperthread) :=
  system.lookup "hyperthread" fun cpuId index =>
    (system.coreAt index).map fun core => core.hyperthreads.find? fun ht => ht.id = cpuId

/-- `System::current_core`. -/
def currentCore : Except String Int → Option (Except String Core) :=
  system.lookup "core" fun _ index => (system.coreAt index).map some

/-- `System::current_complex`. -/
def currentComplex : Except String Int → Option (Except String CoreComplex) :=
  system.lookup "complex" fun _ index => (system.complexAt index).map some

/-- `System::current_node`. -/
def currentNode : Except String Int → Option (Except String Node) :=
  system.lookup "node" fun _ index => (system.nodeAt index).map some

end System

/-! ## Grouping the CPUs -/

/-- The ids of the node, the complex and the core of a CPU. -/
structure Place where
  node : Int
  complex : Int
  core : Int
  deriving DecidableEq, Repr

/-- The CPUs of the cores of a complex, by core id. -/
abbrev CoreMap := SortedMap Int (List Int)

/-- The complexes of a node, by complex id. -/
abbrev ComplexMap := SortedMap Int CoreMap

/-- The nodes, by node id. -/
abbrev TopologyMap := SortedMap Int ComplexMap

/-- Add a CPU to the topology map. -/
def addCpu (topology : TopologyMap) (cpu : Int × Place) : TopologyMap :=
  topology.upsert cpu.2.node SortedMap.empty fun complexes =>
    complexes.upsert cpu.2.complex SortedMap.empty fun cores =>
      cores.upsert cpu.2.core [] fun cpuIds => cpuIds ++ [cpu.1]

/-- A core of the system that is built. -/
def buildCore (entry : Int × List Int) : Core :=
  ⟨entry.1, entry.2.map Hyperthread.mk⟩

/-- A complex of the system that is built. -/
def buildComplex (entry : Int × CoreMap) : CoreComplex :=
  ⟨entry.1, entry.2.entries.map buildCore⟩

/-- A node of the system that is built. -/
def buildNode (entry : Int × ComplexMap) : Node :=
  ⟨entry.1, entry.2.entries.map buildComplex⟩

/-- The nodes in the order of their ids, and likewise below them. -/
def buildNodes (topology : TopologyMap) : List Node :=
  topology.entries.map buildNode

/-- The system of some CPUs that are processed one after the other. -/
def build (cpus : List (Int × Place)) : System :=
  System.new (buildNodes (cpus.foldl addCpu SortedMap.empty))

/-! ## Reading the place of a CPU -/

/-- `char::is_whitespace`. -/
def isWhitespace (c : Char) : Bool :=
  (0x09 ≤ c.toNat ∧ c.toNat ≤ 0x0D) ∨ (0x2000 ≤ c.toNat ∧ c.toNat ≤ 0x200A) ∨
    c.toNat ∈ [0x20, 0x85, 0xA0, 0x1680, 0x2028, 0x2029, 0x202F, 0x205F, 0x3000]

/-- `text.trim()`. -/
def trim (text : List Char) : List Char :=
  ((text.dropWhile isWhitespace).reverse.dropWhile isWhitespace).reverse

/-- The number that some decimal digits denote. -/
def parseDigits (text : List Char) : Option Nat :=
  if text = [] ∨ ¬ text.all Char.isDigit then none
  else some (text.foldl (fun value c => 10 * value + (c.toNat - '0'.toNat)) 0)

/-- `text.parse::<i32>()`. -/
def parseI32 (text : List Char) : Option Int :=
  let value : Option Int :=
    match text with
    | '+' :: digits => (parseDigits digits).map fun n => (n : Int)
    | '-' :: digits => (parseDigits digits).map fun n => -(n : Int)
    | digits => (parseDigits digits).map fun n => (n : Int)
  value.filter fun n => -2 ^ 31 ≤ n ∧ n < 2 ^ 31

/-- What reading a file gives. -/
abbrev Contents := Except String (List Char)

/-- The files of one cache of a CPU that are read, where they exist. -/
structure CacheDir where
  level : Option Contents
  id : Option Contents

/-- The files of a CPU that are read, where they exist. -/
structure CpuDir where
  physicalPackageId : Option Contents
  coreId : Option Contents
  dieId : Option Contents
  cache : Option (Except String (List (Except String CacheDir)))

/-- The number in a file, or a default where there is none. -/
def readId (file : Option Contents) (default : Int) : Except String Int :=
  match file with
  | none => .ok default
  | some contents => contents.map fun text => (parseI32 (trim text)).getD default

/-- The id of the first L3 cache that has one. -/
def readL3Id : List (Except String CacheDir) → Except String Int
  | [] => .ok 0
  | entry :: rest => do
      let cache ← entry
      match cache.level with
      | none => readL3Id rest
      | some level =>
          if parseI32 (trim (← level)) = some 3 then
            match cache.id with
            | none => readL3Id rest
            | some id =>
                match parseI32 (trim (← id)) with
                | some idNum => return idNum
                | none => readL3Id rest
          else readL3Id rest

/-- The die, or the L3 cache as a proxy. -/
def readComplexId (dir : CpuDir) : Except String Int :=
  match dir.dieId with
  | some contents => readId (some contents) 0
  | none =>
      match dir.cache with
      | none => .ok 0
      | some entries => entries.bind readL3Id

/-- Where a CPU is, by the files of its directory. -/
def readPlace (cpuId : Int) (dir : CpuDir) : Except String Place := do
  let nodeId ← readId dir.physicalPackageId 0
  let coreId ← readId dir.coreId cpuId
  let complexId ← readComplexId dir
  return ⟨nodeId, complexId, coreId⟩

/-- Process some CPUs.  A CPU without a directory is skipped. -/
def loadCpus (dirs : Nat → Option CpuDir) : List Nat → TopologyMap → Except String TopologyMap
  | [], topology => .ok topology
  | cpuId :: rest, topology =>
      match dirs cpuId with
      | none => loadCpus dirs rest topology
      | some dir => do
          let place ← readPlace cpuId dir
          loadCpus dirs rest (addCpu topology (cpuId, place))

/-- `System::load`, with the answer of `sysconf` and the directories of the CPUs,
whose numbers the kernel keeps in an `int`. -/
def load (numCpus : Int) (osError : String) (dirs : Nat → Option CpuDir) : Except String System :=
  if numCpus ≤ 0 then .error ("failed to get number of CPUs: " ++ osError)
  else (loadCpus dirs (List.range numCpus.toNat) SortedMap.empty).map fun topology =>
    System.new (buildNodes topology)

/-! ## What is loaded -/

/-- A CPU with the place that is read in its directory. -/
def readCpu (dirs : Nat → Option CpuDir) (cpuId : Nat) : Option (Int × Place) := do
  let dir ← dirs cpuId
  let place ← (readPlace cpuId dir).toOption
  return (cpuId, place)

theorem readCpu_eq_some_iff {dirs : Nat → Option CpuDir} {cpuId : Nat} {cpu : Int × Place} :
    readCpu dirs cpuId = some cpu ↔
      ∃ dir, dirs cpuId = some dir ∧ readPlace cpuId dir = .ok cpu.2 ∧ cpu.1 = cpuId := by
  obtain ⟨id, place⟩ := cpu
  simp only [readCpu, Option.bind_eq_bind, Option.bind_eq_some_iff, Option.pure_def,
    Option.some.injEq, Prod.mk.injEq]
  constructor
  case mp =>
    rintro ⟨dir, found, read, ok, rfl, rfl⟩
    cases result : readPlace cpuId dir with
    | error error =>
        rw [result] at ok
        contradiction
    | ok place =>
        rw [result] at ok
        cases ok
        exact ⟨dir, found, result, rfl⟩
  case mpr =>
    rintro ⟨dir, found, read, rfl⟩
    exact ⟨dir, found, place, by rw [read, Except.toOption], rfl, rfl⟩

/-- The directory of each CPU can be read. -/
def Readable (dirs : Nat → Option CpuDir) (cpuIds : List Nat) : Prop :=
  ∀ cpuId ∈ cpuIds, ∀ dir, dirs cpuId = some dir → ∃ place, readPlace cpuId dir = .ok place

theorem readable_cons_iff {dirs : Nat → Option CpuDir} {cpuId : Nat} {rest : List Nat} :
    Readable dirs (cpuId :: rest) ↔
      (∀ dir, dirs cpuId = some dir → ∃ place, readPlace cpuId dir = .ok place) ∧
        Readable dirs rest :=
  List.forall_mem_cons

/-- The CPUs are added in their order, once all can be read. -/
theorem loadCpus_eq_ok_iff {dirs : Nat → Option CpuDir} {cpuIds : List Nat}
    {topology result : TopologyMap} :
    loadCpus dirs cpuIds topology = .ok result ↔
      Readable dirs cpuIds ∧
        result = (cpuIds.filterMap (readCpu dirs)).foldl addCpu topology := by
  induction cpuIds generalizing topology with
  | nil =>
      constructor
      · intro loads
        cases loads
        exact ⟨List.forall_mem_nil _, rfl⟩
      · rintro ⟨-, rfl⟩
        rfl
  | cons cpuId rest ih =>
      unfold loadCpus
      rw [readable_cons_iff]
      cases found : dirs cpuId with
      | none =>
          rw [List.filterMap_cons_none (by simp [readCpu, found])]
          simp only [reduceCtorEq, false_implies, implies_true, true_and]
          exact ih
      | some dir =>
          cases read : readPlace cpuId dir with
          | error error => simp [read, bind, Except.bind]
          | ok place =>
              have added : readCpu dirs cpuId = some ((cpuId : Int), place) :=
                readCpu_eq_some_iff.mpr ⟨dir, found, read, rfl⟩
              rw [List.filterMap_cons_some added, List.foldl_cons]
              simp only [read, bind, Except.bind, Option.some.injEq, forall_eq',
                Except.ok.injEq, exists_eq', true_and]
              exact ih

/-- The CPUs that are loaded, in their order. -/
def loadedCpus (numCpus : Int) (dirs : Nat → Option CpuDir) : List (Int × Place) :=
  (List.range numCpus.toNat).filterMap (readCpu dirs)

theorem mem_loadedCpus_iff {numCpus : Int} {dirs : Nat → Option CpuDir} {cpu : Int × Place} :
    cpu ∈ loadedCpus numCpus dirs ↔
      ∃ cpuId : Nat, cpuId < numCpus ∧
        ∃ dir, dirs cpuId = some dir ∧ readPlace cpuId dir = .ok cpu.2 ∧ cpu.1 = cpuId := by
  simp only [loadedCpus, List.mem_filterMap, List.mem_range, readCpu_eq_some_iff, Int.lt_toNat]

theorem nodup_loadedCpus (numCpus : Int) (dirs : Nat → Option CpuDir) :
    ((loadedCpus numCpus dirs).map Prod.fst).Nodup := by
  rw [loadedCpus, List.map_filterMap]
  apply List.nodup_range.filterMap
  intro first second id hasFirst hasSecond
  obtain ⟨cpu, read, rfl⟩ := Option.map_eq_some_iff.mp hasFirst
  obtain ⟨other, readOther, same⟩ := Option.map_eq_some_iff.mp hasSecond
  obtain ⟨_, _, _, isFirst⟩ := readCpu_eq_some_iff.mp read
  obtain ⟨_, _, _, isSecond⟩ := readCpu_eq_some_iff.mp readOther
  rw [isFirst, isSecond] at same
  exact Int.ofNat_inj.mp same.symm

section Load

variable {numCpus : Int} {osError : String} {dirs : Nat → Option CpuDir} {system : System}

/-- `System::load` builds the system of all CPUs with a directory. -/
theorem load_eq_ok_iff :
    load numCpus osError dirs = .ok system ↔
      0 < numCpus ∧ Readable dirs (List.range numCpus.toNat) ∧
        system = build (loadedCpus numCpus dirs) := by
  unfold load
  split
  case isTrue nonpositive =>
    have not_positive : ¬ 0 < numCpus := by omega
    simp [not_positive]
  case isFalse positive =>
    have positive : 0 < numCpus := by omega
    simp only [positive, true_and]
    constructor
    · intro loads
      cases all : loadCpus dirs (List.range numCpus.toNat) SortedMap.empty with
      | error error =>
          rw [all] at loads
          contradiction
      | ok topology =>
          rw [all] at loads
          cases loads
          obtain ⟨readable, rfl⟩ := loadCpus_eq_ok_iff.mp all
          exact ⟨readable, rfl⟩
    · rintro ⟨readable, rfl⟩
      rw [loadCpus_eq_ok_iff.mpr ⟨readable, rfl⟩]
      rfl

/-- What `System::load` returns is built from CPUs with distinct ids. -/
theorem load_eq_build (loads : load numCpus osError dirs = .ok system) :
    ∃ cpus : List (Int × Place), (cpus.map Prod.fst).Nodup ∧ system = build cpus := by
  obtain ⟨-, -, built⟩ := load_eq_ok_iff.mp loads
  exact ⟨_, nodup_loadedCpus numCpus dirs, built⟩

end Load

end Schtest.Topology
