import Schtest.Topology.Mask

/-!
# The words that a mask writes

`cpu_set` computes the word of a CPU and writes it through a pointer, with no
look at the end of the `cpu_set_t`.  Whether a word lies beyond it depends only
on the CPUs that `System::load` finds.
-/

namespace Schtest.Topology

open Schtest.Collections

/-- The words of a `cpu_set_t`. -/
def cpuSetWords : Nat :=
  CPU_SETSIZE / 64

/-- `cpu / (8 * size_of::<c_ulong>())`. -/
def cpuElem (cpu : Nat) : Nat :=
  cpu / 64

/-- `cpu_id as i32`. -/
def asI32 (cpuId : Int) : Int :=
  cpuId.bmod (2 ^ 32)

/-- `self.id as usize`, where `id` is what an `i32` keeps of the number of a CPU. -/
def Hyperthread.cpu (ht : Hyperthread) : Nat :=
  asUsize (asI32 ht.id)

/-! ## The words of each level

These are the indices that `cpu_set` computes during a call of `mask`. -/

/-- The word of the mask that holds the bit of a CPU. -/
def Hyperthread.words (ht : Hyperthread) : List Nat :=
  [cpuElem ht.cpu]

/-- The words that the mask of a core writes. -/
def Core.words (core : Core) : List Nat :=
  core.hyperthreads.flatMap Hyperthread.words

/-- The words that the mask of a complex writes. -/
def CoreComplex.words (complex : CoreComplex) : List Nat :=
  complex.cores.flatMap Core.words

/-- The words that the mask of a node writes. -/
def Node.words (node : Node) : List Nat :=
  node.complexes.flatMap CoreComplex.words

/-- The words that the mask of a system writes. -/
def System.words (system : System) : List Nat :=
  system.nodes.flatMap Node.words

/-- All words lie in a `cpu_set_t`. -/
def InBounds (words : List Nat) : Prop :=
  ∀ word ∈ words, word < cpuSetWords

theorem inBounds_flatMap_iff {α : Type} {words : α → List Nat} {children : List α} :
    InBounds (children.flatMap words) ↔ ∀ child ∈ children, InBounds (words child) := by
  constructor
  · intro all child member word under
    exact all word (List.mem_flatMap.mpr ⟨child, member, under⟩)
  · intro each word member
    obtain ⟨child, isChild, under⟩ := List.mem_flatMap.mp member
    exact each child isChild word under

/-! ## The masks that can be computed -/

/-- The ids are numbers of an `i32`. -/
def AreI32 (cpuIds : List Int) : Prop :=
  ∀ id ∈ cpuIds, -2 ^ 31 ≤ id ∧ id < 2 ^ 31

theorem asI32_eq {id : Int} (range : -2 ^ 31 ≤ id ∧ id < 2 ^ 31) : asI32 id = id := by
  apply Int.bmod_eq_of_le
  · omega
  · omega

theorem AreI32.child {α : Type} {cpuIds : α → List Int} {children : List α}
    (ints : AreI32 (children.flatMap cpuIds)) {child : α} (member : child ∈ children) :
    AreI32 (cpuIds child) :=
  fun id under => ints id (List.mem_flatMap.mpr ⟨child, member, under⟩)

theorem foldlM_cpuOr_isSome_iff {α : Type} (mask : α → Option CpuSet) (children : List α)
    (start : CpuSet) :
    (children.foldlM (fun dest child => (mask child).map (cpuOr dest)) start).isSome ↔
      ∀ child ∈ children, (mask child).isSome := by
  induction children generalizing start with
  | nil => simp
  | cons child rest ih =>
      rw [List.foldlM_cons, List.forall_mem_cons]
      cases first : mask child with
      | none => simp
      | some set => simpa using ih (cpuOr start set)

/-- A mask is computed when the masks of all children are. -/
theorem orMasks_isSome_iff {α : Type} {mask : α → Option CpuSet} {words : α → List Nat}
    {cpuIds : α → List Int} {children : List α}
    (each : ∀ child, AreI32 (cpuIds child) → ((mask child).isSome ↔ InBounds (words child)))
    (ints : AreI32 (children.flatMap cpuIds)) :
    (orMasks mask children).isSome ↔ InBounds (children.flatMap words) := by
  rw [orMasks, foldlM_cpuOr_isSome_iff, inBounds_flatMap_iff]
  exact forall₂_congr fun child member => each child (ints.child member)

theorem Hyperthread.mask_isSome_iff (ht : Hyperthread) (ints : AreI32 [ht.id]) :
    ht.mask.isSome ↔ InBounds ht.words := by
  have cpu : ht.cpu = asUsize ht.id := by
    rw [Hyperthread.cpu, asI32_eq (ints ht.id (List.mem_singleton_self _))]
  have word : InBounds ht.words ↔ ht.cpu / 64 < 16 := List.forall_mem_singleton
  rw [word, cpu, Hyperthread.mask, cpuSet, WordSet.insert?]
  split
  case isTrue inside => simp [inside]
  case isFalse outside => simp [outside]

theorem Core.mask_isSome_iff (core : Core) (ints : AreI32 core.cpuIds) :
    core.mask.isSome ↔ InBounds core.words := by
  have single : core.cpuIds = core.hyperthreads.flatMap fun ht => [ht.id] :=
    List.map_eq_flatMap
  rw [single] at ints
  exact orMasks_isSome_iff Hyperthread.mask_isSome_iff ints

theorem CoreComplex.mask_isSome_iff (complex : CoreComplex) (ints : AreI32 complex.cpuIds) :
    complex.mask.isSome ↔ InBounds complex.words :=
  orMasks_isSome_iff Core.mask_isSome_iff ints

theorem Node.mask_isSome_iff (node : Node) (ints : AreI32 node.cpuIds) :
    node.mask.isSome ↔ InBounds node.words :=
  orMasks_isSome_iff CoreComplex.mask_isSome_iff ints

/-- The mask of a system is computed when no word is beyond a `cpu_set_t`. -/
theorem System.mask_isSome_iff (system : System) (ints : AreI32 system.cpuIds) :
    system.mask.isSome ↔ InBounds system.words :=
  orMasks_isSome_iff Node.mask_isSome_iff ints

/-! ## The words of a system -/

/-- No level of a system has a word beyond a `cpu_set_t`. -/
structure MasksInBounds (system : System) : Prop where
  whole : InBounds system.words
  node : ∀ node ∈ system.nodes, InBounds node.words
  complex : ∀ node ∈ system.nodes, ∀ complex ∈ node.complexes, InBounds complex.words
  core : ∀ core ∈ system.cores, InBounds core.words
  hyperthread : ∀ core ∈ system.cores, ∀ ht ∈ core.hyperthreads, InBounds ht.words

theorem Core.words_eq (core : Core) :
    core.words = core.cpuIds.map fun id => cpuElem (Hyperthread.cpu ⟨id⟩) := by
  rw [Core.words, Core.cpuIds, List.map_map, List.map_eq_flatMap]
  rfl

theorem CoreComplex.words_eq (complex : CoreComplex) :
    complex.words = complex.cpuIds.map fun id => cpuElem (Hyperthread.cpu ⟨id⟩) := by
  rw [CoreComplex.words, CoreComplex.cpuIds, List.map_flatMap]
  exact List.flatMap_congr fun core _ => core.words_eq

theorem Node.words_eq (node : Node) :
    node.words = node.cpuIds.map fun id => cpuElem (Hyperthread.cpu ⟨id⟩) := by
  rw [Node.words, Node.cpuIds, List.map_flatMap]
  exact List.flatMap_congr fun complex _ => complex.words_eq

/-- A system writes one word for each of its CPUs. -/
theorem System.words_eq (system : System) :
    system.words = system.cpuIds.map fun id => cpuElem (Hyperthread.cpu ⟨id⟩) := by
  rw [System.words, System.cpuIds_eq, List.map_flatMap]
  exact List.flatMap_congr fun node _ => node.words_eq

/-- The words of the whole system are the words of its levels. -/
theorem masksInBounds_iff (nodes : List Node) :
    MasksInBounds (System.new nodes) ↔ InBounds (System.new nodes).words := by
  constructor
  case mp => exact fun inBounds => inBounds.whole
  case mpr =>
    intro whole
    have eachNode := inBounds_flatMap_iff.mp whole
    have eachCore : ∀ core ∈ (System.new nodes).cores, InBounds core.words := by
      intro core member
      rw [core.words_eq]
      rw [System.words_eq] at whole
      intro word isWord
      obtain ⟨id, under, rfl⟩ := List.mem_map.mp isWord
      apply whole
      apply List.mem_map_of_mem
      exact mem_cores_flatMap_cpuIds.mp (List.mem_flatMap.mpr ⟨core, member, under⟩)
    constructor
    case whole => exact whole
    case node => exact eachNode
    case complex =>
      intro node member complex under
      exact inBounds_flatMap_iff.mp (eachNode node member) complex under
    case core => exact eachCore
    case hyperthread =>
      intro core member ht under
      exact inBounds_flatMap_iff.mp (eachCore core member) ht under

section Load

variable {numCpus : Int} {osError : String} {dirs : Nat → Option CpuDir} {system : System}

/-- The CPUs of a loaded system are those with a directory. -/
theorem mem_cpuIds_load_iff (loads : load numCpus osError dirs = .ok system) {id : Int} :
    id ∈ system.cpuIds ↔ ∃ n : Nat, n < numCpus ∧ (dirs n).isSome ∧ id = n := by
  obtain ⟨-, readable, rfl⟩ := load_eq_ok_iff.mp loads
  rw [(cpuIds_build_perm _).mem_iff, List.mem_map]
  constructor
  case mp =>
    rintro ⟨cpu, member, rfl⟩
    obtain ⟨n, below, dir, found, -, same⟩ := mem_loadedCpus_iff.mp member
    exact ⟨n, below, by rw [found, Option.isSome_some], same⟩
  case mpr =>
    rintro ⟨n, below, present, rfl⟩
    obtain ⟨dir, found⟩ := Option.isSome_iff_exists.mp present
    obtain ⟨place, read⟩ := readable n (List.mem_range.mpr (Int.lt_toNat.mpr below)) dir found
    exact ⟨(n, place), mem_loadedCpus_iff.mpr ⟨n, below, dir, found, read, rfl⟩, rfl⟩

/-- An `i32` keeps the low 32 bits of the number of a CPU. -/
theorem cpuElem_cpu_lt_iff (n : Nat) :
    cpuElem (Hyperthread.cpu ⟨n⟩) < cpuSetWords ↔ n % 2 ^ 32 < CPU_SETSIZE := by
  have lower : -2 ^ 31 ≤ asI32 n := Int.le_bmod (by decide)
  have upper : asI32 n < 2 ^ 31 := Int.bmod_lt (by decide)
  have low : asI32 n % 2 ^ 32 = (n : Int) % 2 ^ 32 := Int.bmod_emod
  unfold cpuElem Hyperthread.cpu asUsize cpuSetWords CPU_SETSIZE
  dsimp only
  omega

/-- A system writes in its `cpu_set_t` when all its CPUs have a bit there. -/
theorem inBounds_words_load_iff (loads : load numCpus osError dirs = .ok system) :
    InBounds system.words ↔
      ∀ n : Nat, n < numCpus → (dirs n).isSome → n % 2 ^ 32 < CPU_SETSIZE := by
  rw [System.words_eq]
  constructor
  case mp =>
    intro inBounds n below present
    have member : (n : Int) ∈ system.cpuIds :=
      (mem_cpuIds_load_iff loads).mpr ⟨n, below, present, rfl⟩
    exact (cpuElem_cpu_lt_iff n).mp (inBounds _ (List.mem_map_of_mem member))
  case mpr =>
    intro small word isWord
    obtain ⟨id, member, rfl⟩ := List.mem_map.mp isWord
    obtain ⟨n, below, present, rfl⟩ := (mem_cpuIds_load_iff loads).mp member
    exact (cpuElem_cpu_lt_iff n).mpr (small n below present)

/-- The mask of a machine whose CPUs an `int` counts is computed when all its
CPUs have a bit. -/
theorem mask_load_isSome_iff (int : numCpus ≤ 2 ^ 31)
    (loads : load numCpus osError dirs = .ok system) :
    system.mask.isSome ↔ ∀ n : Nat, n < numCpus → (dirs n).isSome → n < CPU_SETSIZE := by
  have ints : AreI32 system.cpuIds := by
    intro id member
    obtain ⟨n, below, -, rfl⟩ := (mem_cpuIds_load_iff loads).mp member
    omega
  rw [system.mask_isSome_iff ints, inBounds_words_load_iff loads]
  apply forall₃_congr
  intro n below _
  rw [Nat.mod_eq_of_lt (by omega)]

/-- The masks stay in their `cpu_set_t`s when no CPU with a directory has a
number of 1024 or more in the low 32 bits. -/
theorem load_masksInBounds_iff (loads : load numCpus osError dirs = .ok system) :
    MasksInBounds system ↔
      ∀ n : Nat, n < numCpus → (dirs n).isSome → n % 2 ^ 32 < CPU_SETSIZE := by
  have words := inBounds_words_load_iff loads
  obtain ⟨_, -, rfl⟩ := load_eq_build loads
  exact (masksInBounds_iff _).trans words

end Load

/-! ## A machine of any size -/

/-- A machine whose CPUs all have a directory, with none of the files in it. -/
def everyCpu : Nat → Option CpuDir :=
  fun _ => some ⟨none, none, none, none⟩

theorem load_everyCpu {numCpus : Int} (positive : 0 < numCpus) :
    load numCpus "" everyCpu = .ok (build (loadedCpus numCpus everyCpu)) := by
  apply load_eq_ok_iff.mpr
  refine ⟨positive, ?_, rfl⟩
  intro cpuId _ dir found
  cases found
  exact ⟨⟨0, 0, cpuId⟩, rfl⟩

theorem masksInBounds_everyCpu :
    load 1024 "" everyCpu = .ok (build (loadedCpus 1024 everyCpu)) ∧
      MasksInBounds (build (loadedCpus 1024 everyCpu)) := by
  have loads : load 1024 "" everyCpu = .ok (build (loadedCpus 1024 everyCpu)) :=
    load_everyCpu (by decide)
  constructor
  · exact loads
  · apply (load_masksInBounds_iff loads).mpr
    intro n below _
    unfold CPU_SETSIZE
    omega

/-- With one CPU more, its word is the one behind the `cpu_set_t`. -/
theorem word_behind_cpu_set :
    ∃ system, load 1025 "" everyCpu = .ok system ∧ 16 ∈ system.words ∧
      cpuSetWords = 16 ∧ ¬ MasksInBounds system := by
  have loads : load 1025 "" everyCpu = .ok (build (loadedCpus 1025 everyCpu)) :=
    load_everyCpu (by decide)
  have written : 16 ∈ (build (loadedCpus 1025 everyCpu)).words := by
    rw [System.words_eq]
    apply List.mem_map.mpr
    refine ⟨1024, (mem_cpuIds_load_iff loads).mpr ⟨1024, by decide, rfl, rfl⟩, ?_⟩
    decide
  refine ⟨_, loads, written, rfl, ?_⟩
  intro inBounds
  exact absurd (inBounds.whole 16 written) (by decide)

end Schtest.Topology
