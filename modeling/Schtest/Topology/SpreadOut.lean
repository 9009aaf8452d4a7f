import Schtest.Topology.Partition
import Mathlib.Algebra.Order.Field.Rat
import Mathlib.Data.Finset.Card
import Mathlib.Tactic.NormNum

/-!
# The metric of `spread_out`

`spread_out` runs one spinner for each core and reports the share of the cores
on which a spinner was seen.  It counts the cores by their ids, which the kernel
numbers anew in each package.
-/

namespace Schtest.Topology

open Schtest.Collections

/-! ## The source

What panics is `none`.  That is an overflow, as `cargo build` checks it; the builds that the
modules read are compared at `Shared.Profile`. -/

/-- `i32::MAX`. -/
def I32_MAX : Nat :=
  2 ^ 31 - 1

/-- `count += 1`. -/
def increment (count : Nat) : Option Nat :=
  if count < I32_MAX then some (count + 1) else none

/-- A spinner process: its pid, and the `nr_migrations` of its statistics when
they are read before and after the samples. -/
structure Handle where
  pid : Int
  before : Except String (BitVec 64)
  after : Except String (BitVec 64)

/-- Remember the migration counts. -/
def resetMigrations : List Handle → SortedMap Int (BitVec 64) →
    Except String (SortedMap Int (BitVec 64))
  | [], migrations => .ok migrations
  | handle :: rest, migrations => do
      let count ← handle.before
      resetMigrations rest (migrations.insert handle.pid count)

/-- The migrations since then. -/
def deltaMigrations (migrations : SortedMap Int (BitVec 64)) :
    List Handle → BitVec 64 → Option (Except String (BitVec 64))
  | [], delta => some (.ok delta)
  | handle :: rest, delta =>
      match handle.after with
      | .error error => some (.error error)
      | .ok count =>
          let before := (migrations.find? handle.pid).getD 0
          if count.usubOverflow before ∨ delta.uaddOverflow (count - before) then none
          else deltaMigrations migrations rest (delta + (count - before))

/-- The CPUs that the samples saw: in each of them, the last CPU of each spinner
as an `i32`. -/
def observedCpus (spinners iters : Nat) (lastCpu : Nat → Nat → BitVec 32) : List Int :=
  (List.range (iters / 10)).flatMap fun sample =>
    (List.range spinners).map fun spinner => (lastCpu sample spinner).toInt

/-- `logical_to_physical` of `spread_out`. -/
def logicalToPhysical (system : System) : SortedMap Int Int :=
  SortedMap.empty.insertAll
    (system.cores.flatMap fun core => core.hyperthreads.map fun ht => (ht.id, core.id))

/-- Count the physical id of a CPU once more.  An unknown CPU is skipped. -/
def countOne (physicalIds : SortedMap Int Int) (counts : SortedMap Int Nat) (cpuId : Int) :
    Option (SortedMap Int Nat) :=
  match physicalIds.find? cpuId with
  | none => some counts
  | some physicalId =>
      (increment ((counts.find? physicalId).getD 0)).map (counts.insert physicalId)

/-- How often each physical id was seen. -/
def countPhysical (physicalIds : SortedMap Int Int) (cpuIds : List Int) :
    Option (SortedMap Int Nat) :=
  cpuIds.foldlM (countOne physicalIds) SortedMap.empty

/-- The metric of `spread_out`, with the answer of `ctx.wait()`. -/
def spreadOutMetric (system : System) (handles : List Handle) (lastCpu : Nat → Nat → BitVec 32)
    (waited : Except String Unit) (iters : Nat) : Option (Except String ℚ) :=
  match resetMigrations handles SortedMap.empty with
  | .error error => some (.error error)
  | .ok migrations =>
      (countPhysical (logicalToPhysical system)
          (observedCpus system.cores.length iters lastCpu)).bind fun counts =>
        match waited with
        | .error error => some (.error error)
        | .ok () =>
            (deltaMigrations migrations handles 0).map fun answer =>
              answer.map fun delta => if 0 < delta then 0 else counts.size / system.cores.length

/-- `spread_out` up to its metric.  `cores[0]` panics where there is no core. -/
def spreadOut (system : System) (handles : List Handle) (lastCpu : Nat → Nat → BitVec 32)
    (waited : Except String Unit) : Option (Nat → Option (Except String ℚ)) :=
  if system.cores = [] then none else some (spreadOutMetric system handles lastCpu waited)

/-! ## The cores that are counted -/

/-- No handle reports a migration, and nothing fails. -/
structure Quiet (handles : List Handle) (waited : Except String Unit) : Prop where
  waited : waited = .ok ()
  still : ∃ migrations, resetMigrations handles SortedMap.empty = .ok migrations ∧
    deltaMigrations migrations handles 0 = some (.ok 0)

/-- The entries of `cores()` with a hyperthread that was seen. -/
def observedCores (system : System) (cpuIds : List Int) : List Core :=
  system.cores.filter fun core => core.hyperthreads.any fun ht => ht.id ∈ cpuIds

theorem spreadOutMetric_eq {system : System} {handles : List Handle}
    {lastCpu : Nat → Nat → BitVec 32} {waited : Except String Unit}
    (quiet : Quiet handles waited) (iters : Nat) :
    spreadOutMetric system handles lastCpu waited iters =
      (countPhysical (logicalToPhysical system)
        (observedCpus system.cores.length iters lastCpu)).map fun counts =>
          .ok (counts.size / system.cores.length) := by
  obtain ⟨rfl, migrations, reset, delta⟩ := quiet
  simp only [spreadOutMetric, reset, delta]
  rw [Option.map_eq_bind]
  rfl

section Counts

variable {physicalIds : SortedMap Int Int} {cpuIds : List Int} {counts : SortedMap Int Nat}

/-- How many of the CPUs have a physical id. -/
def timesSeen (physicalIds : SortedMap Int Int) (cpuIds : List Int) (id : Int) : Nat :=
  cpuIds.countP fun cpuId => physicalIds.find? cpuId = some id

/-- Counting goes through as long as each count stays an `i32`. -/
theorem isSome_foldlM_countOne_iff
    (fits : ∀ id, (counts.find? id).getD 0 ≤ I32_MAX) :
    (cpuIds.foldlM (countOne physicalIds) counts).isSome ↔
      ∀ id, (counts.find? id).getD 0 + timesSeen physicalIds cpuIds id ≤ I32_MAX := by
  induction cpuIds generalizing counts with
  | nil => simpa [timesSeen] using fits
  | cons cpuId rest ih =>
      rw [List.foldlM_cons, countOne]
      cases found : physicalIds.find? cpuId with
      | none =>
          have same (id : Int) :
              timesSeen physicalIds (cpuId :: rest) id = timesSeen physicalIds rest id := by
            simp [timesSeen, found]
          simpa [same] using ih fits
      | some physicalId =>
          have seen (id : Int) : timesSeen physicalIds (cpuId :: rest) id =
              timesSeen physicalIds rest id + if id = physicalId then 1 else 0 := by
            simp [timesSeen, found, List.countP_cons, eq_comm]
          by_cases room : (counts.find? physicalId).getD 0 < I32_MAX
          · have next (id : Int) : ((counts.insert physicalId
                ((counts.find? physicalId).getD 0 + 1)).find? id).getD 0 =
                  (counts.find? id).getD 0 + if id = physicalId then 1 else 0 := by
              rw [SortedMap.find?_insert]
              by_cases same : id = physicalId
              · simp [same]
              · simp [same]
            have nextFits (id : Int) : ((counts.insert physicalId
                ((counts.find? physicalId).getD 0 + 1)).find? id).getD 0 ≤ I32_MAX := by
              rw [next]
              by_cases same : id = physicalId
              · rw [same, if_pos rfl]
                exact room
              · rw [if_neg same]
                exact fits id
            have counted := ih nextFits
            simp only [next] at counted
            simp only [increment, room, if_true, Option.map_some, seen]
            refine counted.trans (forall_congr' fun id => ?_)
            rw [Nat.add_right_comm, Nat.add_assoc]
          · simp only [increment, room, if_false, Option.map_none]
            refine iff_of_false (by simp [bind]) ?_
            intro all
            have here := all physicalId
            rw [seen, if_pos rfl] at here
            omega

theorem isSome_countPhysical_iff :
    (countPhysical physicalIds cpuIds).isSome ↔
      ∀ id, timesSeen physicalIds cpuIds id ≤ I32_MAX := by
  have start (id : Int) : ((SortedMap.empty : SortedMap Int Nat).find? id).getD 0 = 0 := rfl
  have fits (id : Int) : ((SortedMap.empty : SortedMap Int Nat).find? id).getD 0 ≤ I32_MAX :=
    Nat.zero_le _
  calc
    (countPhysical physicalIds cpuIds).isSome ↔
        ∀ id, ((SortedMap.empty : SortedMap Int Nat).find? id).getD 0 +
          timesSeen physicalIds cpuIds id ≤ I32_MAX := isSome_foldlM_countOne_iff fits
    _ ↔ ∀ id, timesSeen physicalIds cpuIds id ≤ I32_MAX := by simp only [start, Nat.zero_add]

theorem mem_keys_foldlM_countOne {start : SortedMap Int Nat}
    (counted : cpuIds.foldlM (countOne physicalIds) start = some counts) {physicalId : Int} :
    physicalId ∈ counts.keys ↔ physicalId ∈ start.keys ∨
      ∃ cpuId ∈ cpuIds, physicalIds.find? cpuId = some physicalId := by
  induction cpuIds generalizing start with
  | nil =>
      cases counted
      simp
  | cons cpuId rest ih =>
      rw [List.foldlM_cons, Option.bind_eq_bind, Option.bind_eq_some_iff] at counted
      obtain ⟨next, one, counted⟩ := counted
      rw [ih counted]
      unfold countOne at one
      cases found : physicalIds.find? cpuId with
      | none =>
          rw [found] at one
          cases one
          simp [found]
      | some id =>
          rw [found] at one
          obtain ⟨count, -, rfl⟩ := Option.map_eq_some_iff.mp one
          simp only [SortedMap.mem_keys_insert, List.exists_mem_cons_iff, found,
            Option.some.injEq, eq_comm, or_left_comm, or_assoc]

theorem mem_keys_countPhysical (counted : countPhysical physicalIds cpuIds = some counts)
    {physicalId : Int} :
    physicalId ∈ counts.keys ↔ ∃ cpuId ∈ cpuIds, physicalIds.find? cpuId = some physicalId := by
  simpa [SortedMap.keys, SortedMap.empty] using mem_keys_foldlM_countOne counted

/-- The distinct ids are as many as the list is long where no id is repeated. -/
theorem size_countPhysical_eq_iff (counted : countPhysical physicalIds cpuIds = some counts)
    {ids : List Int}
    (seen : ∀ id, id ∈ ids ↔ ∃ cpuId ∈ cpuIds, physicalIds.find? cpuId = some id) :
    counts.size = ids.length ↔ ids.Nodup := by
  have same : counts.keys.toFinset = ids.toFinset := by
    ext id
    rw [List.mem_toFinset, List.mem_toFinset, mem_keys_countPhysical counted, seen]
  rw [← SortedMap.length_keys, ← List.toFinset_card_of_nodup (SortedMap.nodup_keys _), same]
  exact Multiset.toFinset_card_eq_card_iff_nodup

end Counts

/-- The keys of a map over the hyperthreads of all cores. -/
theorem hyperthreads_perm (nodes : List Node) (select : Core → Int) :
    (((System.new nodes).cores.flatMap fun core =>
      core.hyperthreads.map fun ht => (ht.id, select core)).map Prod.fst).Perm
        (System.new nodes).cpuIds := by
  rw [List.map_flatMap]
  refine ((cores_perm nodes).flatMap_right _).trans ?_
  simp [System.cpuIds, System.new, Node.cores, List.flatMap_assoc, Function.comp_def]

theorem find?_logicalToPhysical {nodes : List Node} (distinct : (System.new nodes).cpuIds.Nodup)
    {cpuId physicalId : Int} :
    (logicalToPhysical (System.new nodes)).find? cpuId = some physicalId ↔
      ∃ core ∈ (System.new nodes).cores, ⟨cpuId⟩ ∈ core.hyperthreads ∧ core.id = physicalId := by
  have keys := (hyperthreads_perm nodes Core.id).nodup_iff.mpr distinct
  unfold logicalToPhysical
  rw [SortedMap.find?_insertAll_eq_some_iff keys]
  simp only [List.mem_flatMap, List.mem_map, Prod.mk.injEq]
  constructor
  · rintro ⟨core, member, ⟨_⟩, hasCpu, rfl, rfl⟩
    exact ⟨core, member, hasCpu, rfl⟩
  · rintro ⟨core, member, hasCpu, rfl⟩
    exact ⟨core, member, ⟨cpuId⟩, hasCpu, rfl, rfl⟩

/-- The counted ids are the ids of the cores that were seen. -/
theorem size_counts_eq_iff {cpus : List (Int × Place)} (distinct : (cpus.map Prod.fst).Nodup)
    {cpuIds : List Int} {counts : SortedMap Int Nat}
    (counted : countPhysical (logicalToPhysical (build cpus)) cpuIds = some counts) :
    counts.size = (observedCores (build cpus) cpuIds).length ↔
      ((observedCores (build cpus) cpuIds).map Core.id).Nodup := by
  rw [← List.length_map Core.id]
  apply size_countPhysical_eq_iff counted
  intro id
  have found (cpuId : Int) : (logicalToPhysical (build cpus)).find? cpuId = some id ↔
      ∃ core ∈ (build cpus).cores, ⟨cpuId⟩ ∈ core.hyperthreads ∧ core.id = id :=
    find?_logicalToPhysical ((cpuIds_build_perm cpus).nodup_iff.mpr distinct)
  simp only [found, observedCores, List.mem_map, List.mem_filter,
    List.any_eq_true, decide_eq_true_eq]
  constructor
  · rintro ⟨core, ⟨member, ht, hasCpu, seen⟩, rfl⟩
    exact ⟨ht.id, seen, core, member, hasCpu, rfl⟩
  · rintro ⟨cpuId, seen, core, member, hasCpu, rfl⟩
    exact ⟨core, ⟨member, ⟨cpuId⟩, hasCpu, seen⟩, rfl⟩

/-! ## When the metric counts cores -/

/-- The metric is the share of the cores that were seen. -/
structure CountsCores (system : System) (cpuIds : List Int)
    (answer : Option (Except String ℚ)) : Prop where
  share : answer = some (.ok ((observedCores system cpuIds).length / system.cores.length))
  full : (∀ core ∈ system.cores, ∃ ht ∈ core.hyperthreads, ht.id ∈ cpuIds) →
    answer = some (.ok 1)

/-- The cores that were seen differ in their ids, and no id was seen too often. -/
structure Distinguishable (system : System) (cpuIds : List Int) : Prop where
  distinct : ((observedCores system cpuIds).map Core.id).Nodup
  fits : ∀ id, timesSeen (logicalToPhysical system) cpuIds id ≤ I32_MAX

theorem observedCores_eq_cores {system : System} {cpuIds : List Int}
    (full : ∀ core ∈ system.cores, ∃ ht ∈ core.hyperthreads, ht.id ∈ cpuIds) :
    observedCores system cpuIds = system.cores := by
  apply List.filter_eq_self.mpr
  simpa using full

/-- The metric counts every core that was seen, unless two of them have the same
id, as cores of different packages or complexes may, or a count overflows. -/
theorem countsCores_iff {numCpus : Int} {osError : String} {dirs : Nat → Option CpuDir}
    {system : System} (loads : load numCpus osError dirs = .ok system) {handles : List Handle}
    {lastCpu : Nat → Nat → BitVec 32} {waited : Except String Unit} (quiet : Quiet handles waited)
    {metric : Nat → Option (Except String ℚ)}
    (runs : spreadOut system handles lastCpu waited = some metric) (iters : Nat) :
    CountsCores system (observedCpus system.cores.length iters lastCpu) (metric iters) ↔
      Distinguishable system (observedCpus system.cores.length iters lastCpu) := by
  unfold spreadOut at runs
  split at runs
  · contradiction
  · rename_i some_
    cases runs
    have cores_pos : (system.cores.length : ℚ) ≠ 0 := by
      simpa using some_
    obtain ⟨cpus, distinct, rfl⟩ := load_eq_build loads
    rw [spreadOutMetric_eq quiet]
    constructor
    · intro counts
      obtain ⟨counted, found, same⟩ := Option.map_eq_some_iff.mp counts.share
      constructor
      case distinct =>
        rw [← size_counts_eq_iff distinct found]
        have same := Except.ok.inj same
        rw [div_left_inj' cores_pos] at same
        exact_mod_cast same
      case fits =>
        rw [← isSome_countPhysical_iff, found]
        rfl
    · rintro ⟨differ, fits⟩
      obtain ⟨counted, found⟩ := Option.isSome_iff_exists.mp (isSome_countPhysical_iff.mpr fits)
      have same := (size_counts_eq_iff distinct found).mpr differ
      constructor
      case share => rw [found, Option.map_some, same]
      case full =>
        intro full
        rw [found, Option.map_some, same, observedCores_eq_cores full, div_self cores_pos]

/-- The files of a CPU that is core 0 of its package. -/
def coreZero (package : Nat) : CpuDir where
  physicalPackageId := some (.ok (Nat.toDigits 10 package))
  coreId := some (.ok "0\n".toList)
  dieId := none
  cache := none

/-- Two packages with one core each. -/
def twoPackages : System :=
  build [(0, ⟨0, 0, 0⟩), (1, ⟨1, 0, 0⟩)]

theorem load_twoPackages : load 2 "" (fun cpuId => some (coreZero cpuId)) = .ok twoPackages :=
  rfl

/-- Two spinner processes that are not migrated. -/
def still : List Handle :=
  [⟨7, .ok 3, .ok 3⟩, ⟨8, .ok 0, .ok 0⟩]

theorem quiet_still : Quiet still (.ok ()) :=
  ⟨rfl, _, rfl, rfl⟩

/-- Where both spinners are on CPU 0, only one core is seen, and it is counted. -/
theorem countsCores_iff_oneCore :
    CountsCores twoPackages (observedCpus twoPackages.cores.length 10 fun _ _ => 0)
        (spreadOutMetric twoPackages still (fun _ _ => 0) (.ok ()) 10) ↔
      Distinguishable twoPackages (observedCpus twoPackages.cores.length 10 fun _ _ => 0) :=
  countsCores_iff load_twoPackages quiet_still rfl 10

/-- With one spinner on each of two cores of the same id the metric is one half. -/
theorem spreadOut_counts_half :
    load 2 "" (fun cpuId => some (coreZero cpuId)) = .ok twoPackages ∧
      Quiet still (.ok ()) ∧
        (∀ core ∈ twoPackages.cores, ∃ ht ∈ core.hyperthreads,
          ht.id ∈ observedCpus twoPackages.cores.length 10 fun _ spinner => spinner) ∧
          ¬ CountsCores twoPackages
            (observedCpus twoPackages.cores.length 10 fun _ spinner => spinner)
            (spreadOutMetric twoPackages still (fun _ spinner => spinner) (.ok ()) 10) := by
  have full : ∀ core ∈ twoPackages.cores, ∃ ht ∈ core.hyperthreads,
      ht.id ∈ observedCpus twoPackages.cores.length 10 fun _ spinner => spinner := by
    decide
  refine ⟨load_twoPackages, quiet_still, full, ?_⟩
  intro counts
  have one := counts.full full
  rw [spreadOutMetric_eq quiet_still] at one
  obtain ⟨counted, found, one⟩ := Option.map_eq_some_iff.mp one
  have size : ((countPhysical (logicalToPhysical twoPackages)
      (observedCpus twoPackages.cores.length 10 fun _ spinner => spinner)).map
        SortedMap.size) = some 1 := by
    decide
  rw [found, Option.map_some, Option.some.injEq] at size
  have cores : twoPackages.cores.length = 2 := by
    decide
  rw [size, cores] at one
  have half := Except.ok.inj one
  norm_num at half

end Schtest.Topology
