import Schtest.Topology.SpreadOut
import Mathlib.Algebra.Order.Field.Basic
import Mathlib.Tactic.Linarith
import Mathlib.Tactic.Positivity

/-!
# The metric of `come_together`

`come_together` runs one process for each complex, with one spinner for each
core, and reports how often the spinners of a process were seen on the complex
of the first of them.  It compares complexes by their ids, which the kernel may
number anew in each package.
-/

namespace Schtest.Topology

open Schtest.Collections

/-! ## The source

What panics is `none`.  That is an unknown CPU too. -/

/-- `logical_to_physical` of `come_together`. -/
def complexIds (system : System) : SortedMap Int Int :=
  SortedMap.empty.insertAll
    (system.nodes.flatMap fun node =>
      node.complexes.flatMap fun complex =>
        complex.cores.flatMap fun core =>
          core.hyperthreads.map fun ht => (ht.id, complex.id))

/-- The two counters of `come_together`. -/
structure Tally where
  mismatches : Nat
  total : Nat

/-- The complex of the first spinner, if there was one, and the tally, after one
more spinner. -/
def addSpinner (ids : SortedMap Int Int) (state : Option Int × Tally) (cpu : BitVec 32) :
    Option (Option Int × Tally) :=
  (ids.find? cpu.toInt).bind fun localComplex =>
    match state.1 with
    | none =>
        (increment state.2.total).map fun total =>
          (some localComplex, ⟨state.2.mismatches, total⟩)
    | some complex =>
        (if complex ≠ localComplex then increment state.2.mismatches
          else some state.2.mismatches).bind fun mismatches =>
            (increment state.2.total).map fun total => (some complex, ⟨mismatches, total⟩)

/-- Add the spinners of one process. -/
def addSet (ids : SortedMap Int Int) (tally : Tally) (cpus : List (BitVec 32)) : Option Tally :=
  (cpus.foldlM (addSpinner ids) (none, tally)).map Prod.snd

/-- Add the spinners of all processes. -/
def addSample (ids : SortedMap Int Int) (tally : Tally) (sets : List (List (BitVec 32))) :
    Option Tally :=
  sets.foldlM (addSet ids) tally

/-- The last CPUs of the spinners of each process in one sample. -/
def spinnerSets (system : System) (lastCpu : Nat → Nat → BitVec 32) : List (List (BitVec 32)) :=
  (List.range system.complexes).map fun process =>
    (List.range system.cores.length).map fun spinner => lastCpu process spinner

/-- The tally of all samples. -/
def comeTogetherTally (system : System) (lastCpu : Nat → Nat → Nat → BitVec 32) (iters : Nat) :
    Option Tally :=
  ((List.range (iters / 10)).map fun sample => spinnerSets system (lastCpu sample)).foldlM
    (addSample (complexIds system)) ⟨0, 0⟩

/-- The quotient of two counts as `f64`.  By zero it is no number. -/
def ratio (count total : Nat) : Option ℚ :=
  if total = 0 then none else some (count / total)

/-- The metric of `come_together`, with the answer of `ctx.wait()`. -/
def comeTogetherMetric (system : System) (lastCpu : Nat → Nat → Nat → BitVec 32)
    (waited : Except String Unit) (iters : Nat) : Option (Except String (Option ℚ)) :=
  (comeTogetherTally system lastCpu iters).map fun tally =>
    waited.map fun _ => (ratio tally.mismatches tally.total).map fun share => 1 - share

/-! ## What the loops add -/

/-- No count has overflowed. -/
structure Tally.Fits (tally : Tally) : Prop where
  bounded : tally.mismatches ≤ tally.total
  small : tally.total ≤ I32_MAX

/-- A part of the loops adds its counts, unless the total overflows. -/
structure Adds (part : Tally → Option Tally) (mismatches total : Nat) : Prop where
  bounded : mismatches ≤ total
  eq : ∀ tally : Tally, tally.Fits → part tally =
    if tally.total + total ≤ I32_MAX then
      some ⟨tally.mismatches + mismatches, tally.total + total⟩
    else none

theorem Adds.foldlM {α : Type} {step : Tally → α → Option Tally} {mismatches total : α → Nat}
    {items : List α}
    (adds : ∀ item ∈ items, Adds (fun tally => step tally item) (mismatches item) (total item)) :
    Adds (fun tally => items.foldlM step tally) (items.map mismatches).sum
      (items.map total).sum := by
  induction items with
  | nil =>
      refine ⟨le_rfl, ?_⟩
      intro tally fits
      have small := fits.small
      simp [small]
  | cons item rest ih =>
      obtain ⟨bounded, head⟩ := adds item List.mem_cons_self
      obtain ⟨restBounded, tail⟩ := ih fun other member =>
        adds other (List.mem_cons_of_mem _ member)
      constructor
      case bounded => simpa using Nat.add_le_add bounded restBounded
      case eq =>
        intro tally fits
        have below := fits.bounded
        simp only [List.foldlM_cons, head tally fits, List.map_cons, List.sum_cons]
        split
        · rename_i small
          have next : Tally.Fits ⟨tally.mismatches + mismatches item, tally.total + total item⟩ :=
            ⟨Nat.add_le_add below bounded, small⟩
          simp only [bind, Option.bind, tail _ next, Nat.add_assoc]
        · rename_i large
          have overflow : ¬ tally.total + (total item + (rest.map total).sum) ≤ I32_MAX := by
            omega
          rw [if_neg overflow]
          rfl

section Counts

variable (ids : SortedMap Int Int)

/-- Add a spinner that is not the first of its process. -/
def addLater (complex : Int) (tally : Tally) (cpu : BitVec 32) : Option Tally :=
  (addSpinner ids (some complex, tally) cpu).map Prod.snd

theorem foldlM_addSpinner (complex : Int) (cpus : List (BitVec 32)) (tally : Tally) :
    (cpus.foldlM (addSpinner ids) (some complex, tally)).map Prod.snd =
      cpus.foldlM (addLater ids complex) tally := by
  induction cpus generalizing tally with
  | nil => rfl
  | cons cpu rest ih =>
      have keeps (next : Option Int × Tally)
          (added : addSpinner ids (some complex, tally) cpu = some next) :
          next.1 = some complex := by
        simp only [addSpinner, Option.bind_eq_some_iff, Option.map_eq_some_iff] at added
        obtain ⟨_, _, _, _, _, _, rfl⟩ := added
        rfl
      rw [List.foldlM_cons, List.foldlM_cons]
      unfold addLater
      cases added : addSpinner ids (some complex, tally) cpu with
      | none => rfl
      | some next =>
          obtain ⟨first, tally⟩ := next
          obtain rfl : first = some complex := keeps _ added
          exact ih tally

/-- One if the complex of a spinner differs from that of the first spinner. -/
def mismatch (first cpu : BitVec 32) : Nat :=
  if ids.find? first.toInt ≠ ids.find? cpu.toInt then 1 else 0

theorem addLater_adds {first cpu : BitVec 32} {complex : Int}
    (foundFirst : ids.find? first.toInt = some complex)
    (known : (ids.find? cpu.toInt).isSome) :
    Adds (fun tally => addLater ids complex tally cpu) (mismatch ids first cpu) 1 := by
  obtain ⟨localComplex, found⟩ := Option.isSome_iff_exists.mp known
  constructor
  case bounded =>
    unfold mismatch
    split <;> simp
  case eq =>
    rintro ⟨mismatches, total⟩ ⟨bounded, small⟩
    simp only [addLater, addSpinner, mismatch, foundFirst, found, Option.bind_some, increment,
      Nat.succ_le_iff] at bounded ⊢
    by_cases room : total < I32_MAX
    · have roomBelow : mismatches < I32_MAX := by
        omega
      by_cases same : complex = localComplex
      · simp [same, room]
      · simp [same, room, roomBelow]
    · by_cases same : complex = localComplex
      · simp [same, room]
      · by_cases roomBelow : mismatches < I32_MAX
        · simp [same, room, roomBelow]
        · simp [same, room, roomBelow]

/-- The mismatches of the spinners of one process. -/
def mismatchesOf : List (BitVec 32) → Nat
  | [] => 0
  | first :: rest => (rest.map (mismatch ids first)).sum

theorem addSet_adds {cpus : List (BitVec 32)}
    (known : ∀ cpu ∈ cpus, (ids.find? cpu.toInt).isSome) :
    Adds (fun tally => addSet ids tally cpus) (mismatchesOf ids cpus) cpus.length := by
  cases cpus with
  | nil =>
      refine ⟨le_rfl, ?_⟩
      intro tally fits
      have small := fits.small
      simp [addSet, mismatchesOf, small]
  | cons first rest =>
      obtain ⟨complex, found⟩ := Option.isSome_iff_exists.mp (known first List.mem_cons_self)
      have length : (rest.map fun _ => 1).sum = rest.length := by
        simp
      obtain ⟨bounded, later⟩ := Adds.foldlM fun cpu member =>
        addLater_adds ids found (known cpu (List.mem_cons_of_mem _ member))
      rw [length] at bounded later
      constructor
      case bounded => exact bounded.trans (Nat.le_succ _)
      case eq =>
        intro tally fits
        have below := fits.bounded
        have start : addSet ids tally (first :: rest) =
            (increment tally.total).bind fun total =>
              rest.foldlM (addLater ids complex) ⟨tally.mismatches, total⟩ := by
          rw [addSet, List.foldlM_cons]
          cases room : increment tally.total with
          | none => simp [addSpinner, found, room, bind]
          | some total =>
              simp only [addSpinner, found, room, bind, Option.bind_some, Option.map_some]
              exact foldlM_addSpinner ids complex rest _
        rw [start, increment]
        by_cases room : tally.total < I32_MAX
        · have next : Tally.Fits ⟨tally.mismatches, tally.total + 1⟩ :=
            ⟨below.trans (Nat.le_succ _), room⟩
          rw [if_pos room, Option.bind_some, later _ next, List.length_cons, Nat.add_right_comm,
            Nat.add_assoc]
          rfl
        · have overflow : ¬ tally.total + (first :: rest).length ≤ I32_MAX := by
            rw [List.length_cons]
            omega
          rw [if_neg room, if_neg overflow]
          rfl

/-- The mismatches of all processes in one sample. -/
def mismatchesIn (sets : List (List (BitVec 32))) : Nat :=
  (sets.map (mismatchesOf ids)).sum

theorem addSample_adds {sets : List (List (BitVec 32))}
    (known : ∀ cpus ∈ sets, ∀ cpu ∈ cpus, (ids.find? cpu.toInt).isSome) :
    Adds (fun tally => addSample ids tally sets) (mismatchesIn ids sets)
      (sets.map List.length).sum :=
  Adds.foldlM fun cpus member => addSet_adds ids (known cpus member)

theorem mismatchesOf_eq_zero_iff {cpus : List (BitVec 32)} :
    mismatchesOf ids cpus = 0 ↔
      ∀ first ∈ cpus, ∀ second ∈ cpus, ids.find? first.toInt = ids.find? second.toInt := by
  cases cpus with
  | nil => simp [mismatchesOf]
  | cons first rest =>
      have head : mismatchesOf ids (first :: rest) = 0 ↔
          ∀ cpu ∈ rest, ids.find? first.toInt = ids.find? cpu.toInt := by
        simp [mismatchesOf, mismatch, List.sum_eq_zero_iff_forall_eq_nat]
      rw [head]
      constructor
      · intro same
        have all : ∀ cpu ∈ first :: rest, ids.find? first.toInt = ids.find? cpu.toInt := by
          intro cpu member
          rcases List.mem_cons.mp member with rfl | later
          · rfl
          · exact same cpu later
        intro one hasOne two hasTwo
        exact (all one hasOne).symm.trans (all two hasTwo)
      · intro same cpu member
        exact same first List.mem_cons_self cpu (List.mem_cons_of_mem _ member)

end Counts

/-! ## What the samples show -/

section Samples

variable (system : System) (lastCpu : Nat → Nat → Nat → BitVec 32) (iters : Nat)

/-- The spinners were only seen on CPUs of the system. -/
def Known : Prop :=
  ∀ sample < iters / 10, ∀ cpus ∈ spinnerSets system (lastCpu sample),
    ∀ cpu ∈ cpus, cpu.toInt ∈ system.cpuIds

/-- In every sample the spinners of each process were on one complex. -/
def Together : Prop :=
  ∀ sample < iters / 10, ∀ cpus ∈ spinnerSets system (lastCpu sample),
    ∀ first ∈ cpus, ∀ second ∈ cpus, system.SameComplex first.toInt second.toInt

/-- In every sample the spinners of each process were on complexes of one id. -/
def TogetherById : Prop :=
  ∀ sample < iters / 10, ∀ cpus ∈ spinnerSets system (lastCpu sample),
    ∀ first ∈ cpus, ∀ second ∈ cpus,
      (complexIds system).find? first.toInt = (complexIds system).find? second.toInt

/-- All mismatches. -/
def mismatches : Nat :=
  ((List.range (iters / 10)).map fun sample =>
    mismatchesIn (complexIds system) (spinnerSets system (lastCpu sample))).sum

theorem mismatches_eq_zero_iff :
    mismatches system lastCpu iters = 0 ↔ TogetherById system lastCpu iters := by
  simp only [mismatches, mismatchesIn, TogetherById, List.sum_eq_zero_iff_forall_eq_nat,
    List.forall_mem_map, List.mem_range, mismatchesOf_eq_zero_iff]

variable {system lastCpu iters}

/-- One count for each spinner of each process in each sample. -/
theorem comeTogetherTally_eq
    (known : ∀ sample < iters / 10, ∀ cpus ∈ spinnerSets system (lastCpu sample),
      ∀ cpu ∈ cpus, ((complexIds system).find? cpu.toInt).isSome) :
    mismatches system lastCpu iters ≤ iters / 10 * (system.complexes * system.cores.length) ∧
      comeTogetherTally system lastCpu iters =
        if iters / 10 * (system.complexes * system.cores.length) ≤ I32_MAX then
          some ⟨mismatches system lastCpu iters,
            iters / 10 * (system.complexes * system.cores.length)⟩
        else none := by
  have size (sample : Nat) : ((spinnerSets system (lastCpu sample)).map List.length).sum =
      system.complexes * system.cores.length := by
    simp [spinnerSets, Function.comp_def]
  have adds : ∀ sample ∈ List.range (iters / 10),
      Adds (fun tally => addSample (complexIds system) tally (spinnerSets system (lastCpu sample)))
        (mismatchesIn (complexIds system) (spinnerSets system (lastCpu sample)))
        (system.complexes * system.cores.length) := by
    intro sample member
    rw [← size sample]
    exact addSample_adds _ (known sample (List.mem_range.mp member))
  obtain ⟨bounded, eq⟩ := Adds.foldlM adds
  have total : ((List.range (iters / 10)).map fun _ =>
      system.complexes * system.cores.length).sum =
        iters / 10 * (system.complexes * system.cores.length) := by
    simp
  rw [total] at bounded eq
  refine ⟨bounded, ?_⟩
  have zero : Tally.Fits ⟨0, 0⟩ := ⟨le_rfl, Nat.zero_le _⟩
  rw [comeTogetherTally, List.foldlM_map, eq _ zero, Nat.zero_add, Nat.zero_add]
  rfl

end Samples

/-- Where a position holds a CPU, the map gives the id of its complex. -/
theorem find?_complexIds {nodes : List Node} (distinct : (System.new nodes).cpuIds.Nodup)
    {index : Index} {cpuId : Int} {complex : CoreComplex}
    (holds : (System.new nodes).Holds index cpuId)
    (found : (System.new nodes).complexAt index = some complex) :
    (complexIds (System.new nodes)).find? cpuId = some complex.id := by
  have keys : ((nodes.flatMap fun node => node.complexes.flatMap fun complex =>
      complex.cores.flatMap fun core => core.hyperthreads.map fun ht =>
        (ht.id, complex.id)).map Prod.fst).Nodup := by
    have same : (nodes.flatMap fun node => node.complexes.flatMap fun complex =>
        complex.cores.flatMap fun core => core.hyperthreads.map fun ht =>
          (ht.id, complex.id)).map Prod.fst = (System.new nodes).cpuIds := by
      simp [System.cpuIds, System.new, List.map_flatMap, Function.comp_def]
    rw [same]
    exact distinct
  obtain ⟨core, atCore, hasCpu⟩ := holds
  obtain ⟨other, atComplex, hasCore⟩ := Option.bind_eq_some_iff.mp atCore
  obtain rfl : other = complex := Option.some.inj (atComplex.symm.trans found)
  obtain ⟨node, atNode, hasComplex⟩ := Option.bind_eq_some_iff.mp atComplex
  apply (SortedMap.find?_insertAll_eq_some_iff keys).mpr
  simp only [List.mem_flatMap, List.mem_map]
  exact ⟨node, List.mem_of_getElem? atNode, other, List.mem_of_getElem? hasComplex,
    core, List.mem_of_getElem? hasCore, _, hasCpu, rfl⟩

section Build

variable {cpus : List (Int × Place)}

theorem isSome_complexIds (distinct : (cpus.map Prod.fst).Nodup) {cpuId : Int}
    (member : cpuId ∈ (build cpus).cpuIds) : ((complexIds (build cpus)).find? cpuId).isSome := by
  have nodup : (build cpus).cpuIds.Nodup := (cpuIds_build_perm cpus).nodup_iff.mpr distinct
  obtain ⟨cpu, hasCpu, rfl⟩ := List.mem_map.mp ((cpuIds_build_perm cpus).mem_iff.mp member)
  obtain ⟨index, holds, -⟩ := existsUnique_holds distinct hasCpu
  have holdsCore := holds
  obtain ⟨core, atCore, -⟩ := holdsCore
  obtain ⟨complex, atComplex, -⟩ := Option.bind_eq_some_iff.mp atCore
  exact Option.isSome_iff_exists.mpr ⟨complex.id, find?_complexIds nodup holds atComplex⟩

/-- CPUs of one complex have its id. -/
theorem find?_eq_of_sameComplex (distinct : (cpus.map Prod.fst).Nodup) {first second : Int}
    (same : (build cpus).SameComplex first second) :
    (complexIds (build cpus)).find? first = (complexIds (build cpus)).find? second := by
  have nodup : (build cpus).cpuIds.Nodup := (cpuIds_build_perm cpus).nodup_iff.mpr distinct
  obtain ⟨nodeIdx, complexIdx, coreIdx, otherIdx, holds, holdsOther⟩ := same
  have holdsCore := holds
  obtain ⟨core, atCore, -⟩ := holdsCore
  obtain ⟨complex, atComplex, -⟩ := Option.bind_eq_some_iff.mp atCore
  have atOther : (build cpus).complexAt (nodeIdx, complexIdx, otherIdx) = some complex :=
    atComplex
  calc
    (complexIds (build cpus)).find? first = some complex.id :=
      find?_complexIds nodup holds atComplex
    _ = (complexIds (build cpus)).find? second :=
      (find?_complexIds nodup holdsOther atOther).symm

/-- A system with a core has a complex. -/
theorem complexes_pos {nodes : List Node} (some_ : (System.new nodes).cores ≠ []) :
    0 < (System.new nodes).complexes := by
  obtain ⟨core, member⟩ := List.exists_mem_of_ne_nil _ some_
  have listed := (cores_perm nodes).mem_iff.mp member
  obtain ⟨node, hasNode, inNode⟩ := List.mem_flatMap.mp listed
  obtain ⟨complex, hasComplex, -⟩ := List.mem_flatMap.mp inNode
  apply List.sum_pos_iff_exists_pos_nat.mpr
  exact ⟨_, List.mem_map_of_mem hasNode, List.length_pos_of_mem hasComplex⟩

end Build

/-! ## When the metric detects spreading -/

/-- The metric is a share, and it is 1 exactly where the processes stayed
together. -/
def Detects (system : System) (lastCpu : Nat → Nat → Nat → BitVec 32) (iters : Nat)
    (answer : Option (Except String (Option ℚ))) : Prop :=
  ∃ value, answer = some (.ok (some value)) ∧ 0 ≤ value ∧ value ≤ 1 ∧
    (value = 1 ↔ Together system lastCpu iters)

/-- There is something to count, not too much of it, and no process was spread
over complexes of one id only. -/
structure Detectable (system : System) (lastCpu : Nat → Nat → Nat → BitVec 32) (iters : Nat) :
    Prop where
  samples : 10 ≤ iters
  cores : system.cores ≠ []
  fits : iters / 10 * (system.complexes * system.cores.length) ≤ I32_MAX
  separated : TogetherById system lastCpu iters → Together system lastCpu iters

/-- There is something to count where there is a sample and a core. -/
theorem total_ne_zero_iff {nodes : List Node} {iters : Nat} :
    iters / 10 * ((System.new nodes).complexes * (System.new nodes).cores.length) ≠ 0 ↔
      10 ≤ iters ∧ (System.new nodes).cores ≠ [] := by
  rw [Nat.mul_ne_zero_iff]
  constructor
  · rintro ⟨samples, spinners⟩
    constructor
    · omega
    · intro none_
      simp [none_] at spinners
  · rintro ⟨samples, cores⟩
    have length_ne : (System.new nodes).cores.length ≠ 0 := by
      simpa using cores
    constructor
    · omega
    · exact Nat.mul_ne_zero (Nat.ne_of_gt (complexes_pos cores)) length_ne

/-- The metric that the tally gives is a share, and 1 where nothing was missed. -/
theorem one_sub_div_bounds {missed total : Nat} (bounded : missed ≤ total) (some_ : total ≠ 0) :
    0 ≤ (1 - missed / total : ℚ) ∧ (1 - missed / total : ℚ) ≤ 1 ∧
      ((1 - missed / total : ℚ) = 1 ↔ missed = 0) := by
  have total_pos : (0 : ℚ) < total := by
    exact_mod_cast Nat.pos_of_ne_zero some_
  have share_nonneg : (0 : ℚ) ≤ missed / total := by
    positivity
  have share_le : (missed / total : ℚ) ≤ 1 := by
    rw [div_le_one total_pos]
    exact_mod_cast bounded
  have all_iff : (1 - missed / total : ℚ) = 1 ↔ missed = 0 := by
    rw [sub_eq_self, div_eq_zero_iff]
    simp [some_]
  exact ⟨by linarith, by linarith, all_iff⟩

theorem detects_iff {numCpus : Int} {osError : String} {dirs : Nat → Option CpuDir}
    {system : System} (loads : load numCpus osError dirs = .ok system)
    {lastCpu : Nat → Nat → Nat → BitVec 32} {iters : Nat} (known : Known system lastCpu iters) :
    Detects system lastCpu iters (comeTogetherMetric system lastCpu (.ok ()) iters) ↔
      Detectable system lastCpu iters := by
  obtain ⟨cpus, distinct, rfl⟩ := load_eq_build loads
  obtain ⟨bounded, tally⟩ := comeTogetherTally_eq fun sample inTime set member cpu hasCpu =>
    isSome_complexIds distinct (known sample inTime set member cpu hasCpu)
  have byId : Together (build cpus) lastCpu iters → TogetherById (build cpus) lastCpu iters :=
    fun together sample inTime set member first hasFirst second hasSecond =>
      find?_eq_of_sameComplex distinct
        (together sample inTime set member first hasFirst second hasSecond)
  have zero := mismatches_eq_zero_iff (build cpus) lastCpu iters
  have total_ne : iters / 10 * ((build cpus).complexes * (build cpus).cores.length) ≠ 0 ↔
      10 ≤ iters ∧ (build cpus).cores ≠ [] := total_ne_zero_iff
  have metric := congrArg (Option.map fun tally : Tally =>
    (Except.ok ((ratio tally.mismatches tally.total).map fun share => 1 - share) :
      Except String (Option ℚ))) tally
  change comeTogetherMetric (build cpus) lastCpu (.ok ()) iters = _ at metric
  constructor
  · rintro ⟨value, answer, -, -, detects⟩
    rw [metric] at answer
    split at answer
    · rename_i fits
      by_cases empty : iters / 10 * ((build cpus).complexes * (build cpus).cores.length) = 0
      · simp [ratio, empty] at answer
      · obtain ⟨samples, cores⟩ := total_ne.mp empty
        constructor
        case samples => exact samples
        case cores => exact cores
        case fits => exact fits
        case separated =>
          intro same
          apply detects.mp
          rw [← zero] at same
          simpa only [Option.map_some, ratio, empty, same, if_false, Nat.cast_zero, zero_div,
            sub_zero, Option.some.injEq, Except.ok.injEq] using answer.symm
    · contradiction
  · intro detectable
    have some_ := total_ne.mpr ⟨detectable.samples, detectable.cores⟩
    obtain ⟨nonneg, le_one, all_iff⟩ := one_sub_div_bounds bounded some_
    refine ⟨_, ?_, nonneg, le_one, ?_⟩
    · rw [metric, if_pos detectable.fits, Option.map_some, ratio, if_neg some_]
      rfl
    · calc
        _ ↔ mismatches (build cpus) lastCpu iters = 0 := all_iff
        _ ↔ TogetherById (build cpus) lastCpu iters := zero
        _ ↔ Together (build cpus) lastCpu iters := ⟨detectable.separated, byId⟩

theorem cpuIds_twoPackages : twoPackages.cpuIds = [0, 1] :=
  rfl

/-- Both spinners of each process on CPU 0. -/
theorem detects_iff_oneCpu :
    Detects twoPackages (fun _ _ _ => 0) 10
        (comeTogetherMetric twoPackages (fun _ _ _ => 0) (.ok ()) 10) ↔
      Detectable twoPackages (fun _ _ _ => 0) 10 := by
  apply detects_iff load_twoPackages
  intro sample _
  have sets : spinnerSets twoPackages (fun _ _ => 0) = [[0, 0], [0, 0]] := rfl
  rw [sets, cpuIds_twoPackages]
  simp

/-- Where the packages number their complexes alike, the metric is 1 with the
spinners of each process on both packages; and below 10 iterations it is no
number. -/
theorem comeTogether_misses :
    load 2 "" (fun cpuId => some (coreZero cpuId)) = .ok twoPackages ∧
      (∀ iters, Known twoPackages (fun _ _ spinner => spinner) iters) ∧
        ¬ Detects twoPackages (fun _ _ spinner => spinner) 10
          (comeTogetherMetric twoPackages (fun _ _ spinner => spinner) (.ok ()) 10) ∧
          ¬ Detects twoPackages (fun _ _ spinner => spinner) 9
            (comeTogetherMetric twoPackages (fun _ _ spinner => spinner) (.ok ()) 9) := by
  have sets : spinnerSets twoPackages (fun _ spinner => spinner) = [[0, 1], [0, 1]] := rfl
  refine ⟨load_twoPackages, ?_, ?_, ?_⟩
  · intro iters sample _
    rw [sets, cpuIds_twoPackages]
    simp
  · rintro ⟨value, answer, -, -, detects⟩
    have one : comeTogetherMetric twoPackages (fun _ _ spinner => spinner) (.ok ()) 10 =
        some (.ok ((ratio 0 4).map fun share => 1 - share)) := rfl
    have value_eq : value = 1 := by
      rw [one] at answer
      simpa [ratio] using answer.symm
    have together := detects.mp value_eq 0 (by decide) [0, 1]
    rw [sets] at together
    have same : twoPackages.SameComplex 0 1 := together (by decide) 0 (by decide) 1 (by decide)
    have hasFirst : (0, ⟨0, 0, 0⟩) ∈ [(0, ⟨0, 0, 0⟩), ((1, ⟨1, 0, 0⟩) : Int × Place)] := by
      decide
    have hasSecond : (1, ⟨1, 0, 0⟩) ∈ [(0, ⟨0, 0, 0⟩), ((1, ⟨1, 0, 0⟩) : Int × Place)] := by
      decide
    have placed := (sameComplex_iff (by decide) hasFirst hasSecond).mp same
    exact absurd placed.1 (by decide)
  · rintro ⟨value, answer, -⟩
    have nan : comeTogetherMetric twoPackages (fun _ _ spinner => spinner) (.ok ()) 9 =
        some (.ok none) := rfl
    rw [nan] at answer
    simp at answer

end Schtest.Topology
