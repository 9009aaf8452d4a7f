import Schtest.Topology.Partition

/-!
# CPUs without topology data

A CPU that reports no core gets its own number as a core id, and the other two
ids default to zero.  The numbers of the CPUs are also core ids that other CPUs
report.
-/

namespace Schtest.Topology

open Schtest.Collections

/-- The number that a file reports, if any. -/
def reported : Option Contents → Option Int
  | some (.ok text) => parseI32 (trim text)
  | _ => none

theorem readId_eq_ok {file : Option Contents} {default id : Int}
    (read : readId file default = .ok id) : id = (reported file).getD default := by
  cases file with
  | none =>
      cases read
      rfl
  | some contents =>
      cases contents with
      | error error => contradiction
      | ok text =>
          cases read
          rfl

/-- The place of a CPU, with the default of each id. -/
theorem readPlace_eq_ok {cpuId : Int} {dir : CpuDir} {place : Place}
    (read : readPlace cpuId dir = .ok place) :
    place.node = (reported dir.physicalPackageId).getD 0 ∧
      place.core = (reported dir.coreId).getD cpuId ∧
      readComplexId dir = .ok place.complex := by
  unfold readPlace at read
  cases node : readId dir.physicalPackageId 0 with
  | error error => simp [node, bind, Except.bind] at read
  | ok nodeId =>
      cases core : readId dir.coreId cpuId with
      | error error => simp [node, core, bind, Except.bind] at read
      | ok coreId =>
          cases complex : readComplexId dir with
          | error error => simp [node, core, complex, bind, Except.bind] at read
          | ok complexId =>
              simp only [node, core, complex, bind, Except.bind, pure, Except.pure,
                Except.ok.injEq] at read
              subst read
              exact ⟨readId_eq_ok node, readId_eq_ok core, rfl⟩

/-! ## The CPUs of a system -/

theorem exists_mem_of_holds {cpus : List (Int × Place)} {index : Index} {cpuId : Int}
    (holds : (build cpus).Holds index cpuId) : ∃ place, (cpuId, place) ∈ cpus := by
  obtain ⟨place, cpuIds, reaches, hasCpu⟩ := holds_iff.mp holds
  exact ⟨place, (cells_build_perm cpus).mem_iff.mp
    (mem_cells_iff.mpr ⟨index, cpuIds, reaches, hasCpu⟩)⟩

section Load

variable {numCpus : Int} {osError : String} {dirs : Nat → Option CpuDir} {system : System}

/-- Two CPUs are in one core when the same place is read for both. -/
theorem sameCore_load_iff (loads : load numCpus osError dirs = .ok system) {first second : Int} :
    system.SameCore first second ↔
      ∃ place, (first, place) ∈ loadedCpus numCpus dirs ∧
        (second, place) ∈ loadedCpus numCpus dirs := by
  obtain ⟨-, -, rfl⟩ := load_eq_ok_iff.mp loads
  have distinct := nodup_loadedCpus numCpus dirs
  constructor
  case mp =>
    intro same
    have held := same
    obtain ⟨node, complex, core, holdsFirst, holdsSecond⟩ := held
    obtain ⟨place, hasFirst⟩ := exists_mem_of_holds holdsFirst
    obtain ⟨other, hasSecond⟩ := exists_mem_of_holds holdsSecond
    obtain rfl : place = other := (sameCore_iff distinct hasFirst hasSecond).mp same
    exact ⟨place, hasFirst, hasSecond⟩
  case mpr =>
    rintro ⟨place, hasFirst, hasSecond⟩
    exact (sameCore_iff distinct hasFirst hasSecond).mpr rfl

/-- A CPU has a directory with this core id in it. -/
def ReportsCore (dirs : Nat → Option CpuDir) (cpuId id : Int) : Prop :=
  ∃ (n : Nat) (dir : CpuDir), cpuId = n ∧ dirs n = some dir ∧ reported dir.coreId = some id

/-- Different CPUs are in one core only where both report the same core id. -/
def MergesReported (dirs : Nat → Option CpuDir) (system : System) : Prop :=
  ∀ first second : Int, first ≠ second → system.SameCore first second →
    ∃ id, ReportsCore dirs first id ∧ ReportsCore dirs second id

/-- The number of a CPU that reports no core is the core id that another one
reports in the same complex of the same package. -/
def Collides (numCpus : Int) (dirs : Nat → Option CpuDir) : Prop :=
  ∃ (n m : Nat) (dir other : CpuDir), n < numCpus ∧ m < numCpus ∧
    dirs n = some dir ∧ dirs m = some other ∧
    reported dir.coreId = none ∧ reported other.coreId = some (n : Int) ∧
    (reported dir.physicalPackageId).getD 0 = (reported other.physicalPackageId).getD 0 ∧
    readComplexId dir = readComplexId other

/-- A CPU that reports no core is alone, unless it collides. -/
theorem collides_of_sameCore {first second : Int} {place : Place} (different : first ≠ second)
    (hasFirst : (first, place) ∈ loadedCpus numCpus dirs)
    (hasSecond : (second, place) ∈ loadedCpus numCpus dirs) :
    Collides numCpus dirs ∨ ∃ id, ReportsCore dirs first id ∧ ReportsCore dirs second id := by
  obtain ⟨n, below, dir, found, read, isFirst⟩ := mem_loadedCpus_iff.mp hasFirst
  obtain ⟨m, otherBelow, other, foundOther, readOther, isSecond⟩ := mem_loadedCpus_iff.mp hasSecond
  obtain ⟨node, core, complex⟩ := readPlace_eq_ok read
  obtain ⟨otherNode, otherCore, otherComplex⟩ := readPlace_eq_ok readOther
  have sameNode := node.symm.trans otherNode
  have sameComplex := complex.trans otherComplex.symm
  simp only at isFirst isSecond
  cases reports : reported dir.coreId with
  | none =>
      rw [reports, Option.getD_none] at core
      cases reportsOther : reported other.coreId with
      | none =>
          -- each has its own number as its core
          rw [reportsOther, Option.getD_none] at otherCore
          rw [isFirst, isSecond, ← core, ← otherCore] at different
          contradiction
      | some id =>
          rw [reportsOther, Option.getD_some, core] at otherCore
          left
          exact ⟨n, m, dir, other, below, otherBelow, found, foundOther, reports,
            by rw [reportsOther, otherCore], sameNode, sameComplex⟩
  | some id =>
      rw [reports, Option.getD_some] at core
      cases reportsOther : reported other.coreId with
      | none =>
          rw [reportsOther, Option.getD_none, core] at otherCore
          left
          exact ⟨m, n, other, dir, otherBelow, below, foundOther, found, reportsOther,
            by rw [reports, otherCore], sameNode.symm, sameComplex.symm⟩
      | some otherId =>
          rw [reportsOther, Option.getD_some, core] at otherCore
          right
          exact ⟨id, ⟨n, dir, isFirst, found, reports⟩,
            ⟨m, other, isSecond, foundOther, by rw [reportsOther, otherCore]⟩⟩

theorem ReportsCore.of_dir {n : Nat} {dir : CpuDir} {id : Int} (found : dirs n = some dir)
    (reports : ReportsCore dirs n id) : reported dir.coreId = some id := by
  obtain ⟨k, other, same, foundOther, reportsOther⟩ := reports
  obtain rfl := Int.ofNat_inj.mp same
  rw [found] at foundOther
  cases foundOther
  exact reportsOther

/-- A CPU with a directory is loaded. -/
theorem exists_loaded (loads : load numCpus osError dirs = .ok system) {n : Nat} {dir : CpuDir}
    (below : n < numCpus) (found : dirs n = some dir) :
    ∃ place, readPlace n dir = .ok place ∧ ((n : Int), place) ∈ loadedCpus numCpus dirs := by
  obtain ⟨-, readable, -⟩ := load_eq_ok_iff.mp loads
  obtain ⟨place, read⟩ := readable n (List.mem_range.mpr (Int.lt_toNat.mpr below)) dir found
  exact ⟨place, read, mem_loadedCpus_iff.mpr ⟨n, below, dir, found, read, rfl⟩⟩

/-- CPUs that collide are in one core. -/
theorem sameCore_of_collides (loads : load numCpus osError dirs = .ok system)
    (collides : Collides numCpus dirs) :
    ∃ (n m : Nat) (dir : CpuDir), n ≠ m ∧ system.SameCore n m ∧
      dirs n = some dir ∧ reported dir.coreId = none := by
  obtain ⟨n, m, dir, other, below, otherBelow, found, foundOther, reports, reportsOther,
    sameNode, sameComplex⟩ := collides
  obtain ⟨place, read, hasFirst⟩ := exists_loaded loads below found
  obtain ⟨otherPlace, readOther, hasSecond⟩ := exists_loaded loads otherBelow foundOther
  obtain ⟨node, core, complex⟩ := readPlace_eq_ok read
  obtain ⟨otherNode, otherCore, otherComplex⟩ := readPlace_eq_ok readOther
  have samePlace : place = otherPlace := by
    rw [reports, Option.getD_none] at core
    rw [reportsOther, Option.getD_some] at otherCore
    rw [complex, otherComplex, Except.ok.injEq] at sameComplex
    obtain ⟨_, _, _⟩ := place
    obtain ⟨_, _, _⟩ := otherPlace
    simp only at node core otherNode otherCore sameComplex
    rw [node, core, otherNode, otherCore, sameComplex, sameNode]
  subst samePlace
  have different : n ≠ m := by
    rintro rfl
    rw [found] at foundOther
    cases foundOther
    rw [reports] at reportsOther
    contradiction
  exact ⟨n, m, dir, different, (sameCore_load_iff loads).mpr ⟨place, hasFirst, hasSecond⟩,
    found, reports⟩

/-- CPUs are merged only by the core ids that they report exactly when the
number of a CPU without one is no core id beside it. -/
theorem load_mergesReported_iff (loads : load numCpus osError dirs = .ok system) :
    MergesReported dirs system ↔ ¬ Collides numCpus dirs := by
  constructor
  case mp =>
    intro merges collides
    obtain ⟨n, m, dir, different, together, found, reports⟩ :=
      sameCore_of_collides loads collides
    obtain ⟨id, reportsFirst, -⟩ :=
      merges n m (fun same => different (Int.ofNat_inj.mp same)) together
    rw [reportsFirst.of_dir found] at reports
    contradiction
  case mpr =>
    intro apart first second different together
    obtain ⟨place, hasFirst, hasSecond⟩ := (sameCore_load_iff loads).mp together
    rcases collides_of_sameCore different hasFirst hasSecond with collides | reports
    · exact absurd collides apart
    · exact reports

end Load

/-! ## An offline CPU -/

/-- The directory of a CPU that reports a core of package 0. -/
def onlineDir (coreId : String) : CpuDir where
  physicalPackageId := some (.ok "0\n".toList)
  coreId := some (.ok coreId.toList)
  dieId := some (.ok "0\n".toList)
  cache := none

/-- The directory of a CPU without any of the files. -/
def offlineDir : CpuDir where
  physicalPackageId := none
  coreId := none
  dieId := none
  cache := none

/-- CPUs 0 and 2 report the cores 0 and `coreId`, and CPU 1 is offline. -/
def threeCpus (coreId : String) : Nat → Option CpuDir
  | 0 => some (onlineDir "0\n")
  | 1 => some offlineDir
  | 2 => some (onlineDir coreId)
  | _ => none

theorem load_threeCpus_mergesReported :
    load 3 "" (threeCpus "2\n") =
        .ok (build [(0, ⟨0, 0, 0⟩), (1, ⟨0, 0, 1⟩), (2, ⟨0, 0, 2⟩)]) ∧
      MergesReported (threeCpus "2\n")
        (build [(0, ⟨0, 0, 0⟩), (1, ⟨0, 0, 1⟩), (2, ⟨0, 0, 2⟩)]) := by
  have loads : load 3 "" (threeCpus "2\n") =
      .ok (build [(0, ⟨0, 0, 0⟩), (1, ⟨0, 0, 1⟩), (2, ⟨0, 0, 2⟩)]) := rfl
  constructor
  · exact loads
  · apply (load_mergesReported_iff loads).mpr
    rintro ⟨n, m, dir, other, -, -, found, foundOther, reports, reportsOther, -⟩
    rcases n with _ | _ | _ | n <;> cases found
    · exact absurd reports (by decide)
    · -- no CPU reports core 1
      rcases m with _ | _ | _ | m <;> cases foundOther <;> exact absurd reportsOther (by decide)
    · exact absurd reports (by decide)

/-- The offline CPU 1 is in core 1, which CPU 2 reports. -/
theorem offline_sameCore :
    ∃ system, load 3 "" (threeCpus "1\n") = .ok system ∧ system.SameCore 1 2 ∧
      ¬ MergesReported (threeCpus "1\n") system := by
  have together :
      (build [(0, ⟨0, 0, 0⟩), (1, ⟨0, 0, 1⟩), (2, ⟨0, 0, 1⟩)]).SameCore 1 2 :=
    ⟨0, 0, 1, ⟨_, rfl, by decide⟩, ⟨_, rfl, by decide⟩⟩
  refine ⟨_, rfl, together, ?_⟩
  intro merges
  obtain ⟨id, reports, -⟩ := merges 1 2 (by decide) together
  have missing : reported offlineDir.coreId = some id := ReportsCore.of_dir rfl reports
  contradiction

end Schtest.Topology
