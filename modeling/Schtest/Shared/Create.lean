import Schtest.Shared.Bump
import Mathlib.Order.Bounds.Defs

/-!
# Creating a memfd

`MemFd::create` rounds the requested size up to pages, creates a descriptor,
sets its size and maps it.  What the system calls answer is arbitrary.  A run
ends with a memfd, an error or a panic, and with the descriptors that are then
open.
-/

namespace Schtest.Shared

/-! ## The system -/

/-- A power of two as the size of a page. -/
structure PageSize where
  bytes : U64
  power : ∃ k, bytes.toNat = 2 ^ k

/-- A file descriptor; `memfd_create` reports a failure as `-1`. -/
abbrev RawFd := BitVec 32

/-- An error number, by the text it is displayed as. -/
structure Errno where
  text : String
  deriving DecidableEq, Repr

/-- `NonZeroUsize`. -/
structure NonZeroUsize where
  value : U64
  nonZero : value ≠ 0

/-- `NonZeroUsize::new`. -/
def NonZeroUsize.new (value : U64) : Option NonZeroUsize :=
  if nonZero : value ≠ 0 then some ⟨value, nonZero⟩ else none

theorem NonZeroUsize.value_of_new {value : U64} {length : NonZeroUsize}
    (some_ : NonZeroUsize.new value = some length) : length.value = value := by
  rw [NonZeroUsize.new] at some_
  split at some_
  · cases some_
    rfl
  · contradiction

/-- What the system answers to the calls of `create`. -/
structure Os where
  /-- The value of `PAGE_SIZE`, if the system has one. -/
  sysconf : Except Errno (Option U64)
  memfdCreate : List UInt8 → RawFd
  lastOsError : Errno
  ftruncate : RawFd → Int → Except Errno Unit
  mmap : NonZeroUsize → RawFd → Except Errno U64

/-- `sysconf` fails or reports this page size. -/
def Os.Pages (os : Os) (page : PageSize) : Prop :=
  ∀ answer, os.sysconf = .ok answer → answer = some page.bytes

/-! ## The function -/

/-- An `io::Error`. -/
inductive IoError
  | other (message : String)
  | invalidInput (message : String)
  | os (errno : Errno)
  deriving DecidableEq, Repr

/-- The panics of `MemFd::create`. -/
inductive Panic
  /-- The system has no `PAGE_SIZE`. -/
  | noPageSize
  /-- Arithmetic overflow, where it is checked. -/
  | overflow
  /-- `NonZeroUsize::new(0).unwrap()`. -/
  | zeroLength
  deriving DecidableEq, Repr

/-- A created memfd with its fields. -/
structure MappedFd where
  fd : RawFd
  data : U64
  size : U64
  deriving DecidableEq, Repr

/-- How `MemFd::create` ends. -/
inductive Outcome
  | ok (memfd : MappedFd)
  | err (error : IoError)
  | panicked (reason : Panic)
  deriving DecidableEq, Repr

/-- How a call ends, and the descriptors that are then open. -/
structure Ran where
  outcome : Outcome
  descriptors : List RawFd
  deriving DecidableEq, Repr

/-- Whether arithmetic overflow panics or wraps.

`create` is read in both builds.  The other modules read the source in one of them.  The
count word of a semaphore, the counts of `come_together`'s workers, the offsets of
`BumpAllocator::alloc`, the sum in `SplitTimer::elapsed` and the totals of `SchedStats` wrap
around, as in a release build.  The counters in the metrics of `spread_out` and
`come_together` panic, as in a debug build.  Casts and the operations of atomics, such as the
index of a `SplitTimer`, wrap in both. -/
inductive Profile
  | dev
  | release
  deriving DecidableEq, Repr

/-- `(size + page_size - 1) & !(page_size - 1)`, or a panic. -/
def roundedUp (profile : Profile) (size pageSize : U64) : Option U64 :=
  if profile = .dev ∧ (2 ^ 64 ≤ size.toNat + pageSize.toNat ∨ pageSize = 0) then none
  else some (alignUp size pageSize)

/-- `CString::new`, which fails at the first nul byte. -/
def cString (name : List UInt8) : Except IoError (List UInt8) :=
  match name.findIdx? (· == 0) with
  | some position =>
      .error (.invalidInput ("Invalid memfd name: " ++
        "nul byte found in provided data at position: " ++ toString position))
  | none => .ok name

/-- `close(fd)`, whose answer is ignored. -/
def close (fd : RawFd) (descriptors : List RawFd) : List RawFd :=
  descriptors.erase fd

/-- The rest of `create`, from the call of `ftruncate` on. -/
def Os.sizeAndMap (os : Os) (fd : RawFd) (rounded : U64) (descriptors : List RawFd) : Ran :=
  match os.ftruncate fd rounded.toInt with
  | .error errno =>
      ⟨.err (.other ("Failed to set size: " ++ errno.text)), close fd descriptors⟩
  | .ok () =>
      match NonZeroUsize.new rounded with
      | none => ⟨.panicked .zeroLength, descriptors⟩
      | some length =>
          match os.mmap length fd with
          | .error errno =>
              ⟨.err (.other ("Memory mapping failed: " ++ errno.text)), close fd descriptors⟩
          | .ok data => ⟨.ok ⟨fd, data, rounded⟩, descriptors⟩

/-- `create(name, size)`, once the size is rounded up. -/
def Os.createRounded (os : Os) (name : List UInt8) (rounded : U64) (descriptors : List RawFd) :
    Ran :=
  match cString name with
  | .error error => ⟨.err error, descriptors⟩
  | .ok cName =>
      if os.memfdCreate cName = -1 then ⟨.err (.os os.lastOsError), descriptors⟩
      else
        os.sizeAndMap (os.memfdCreate cName) rounded (os.memfdCreate cName :: descriptors)

/-- `create(name, size)`. -/
def Os.create (os : Os) (profile : Profile) (name : List UInt8) (size : U64)
    (descriptors : List RawFd) : Ran :=
  match os.sysconf with
  | .error errno => ⟨.err (.other ("System error: " ++ errno.text)), descriptors⟩
  | .ok none => ⟨.panicked .noPageSize, descriptors⟩
  | .ok (some pageSize) =>
      match roundedUp profile size pageSize with
      | none => ⟨.panicked .overflow, descriptors⟩
      | some rounded => os.createRounded name rounded descriptors

/-! ## Rounding -/

theorem PageSize.pos (page : PageSize) : 0 < page.bytes.toNat := by
  obtain ⟨k, power⟩ := page.power
  rw [power]
  exact Nat.two_pow_pos k

/-- The least number of whole pages that holds the size. -/
theorem isLeast_roundUp {pageSize : Nat} (positive : 0 < pageSize) (size : Nat) :
    IsLeast {n | pageSize ∣ n ∧ size ≤ n} (roundUp size pageSize) := by
  constructor
  · exact ⟨dvd_roundUp _ _, le_roundUp positive size⟩
  · rintro bound ⟨multiple, enough⟩
    exact roundUp_le positive enough multiple

theorem alignUp_zero (page : PageSize) : alignUp 0 page.bytes = 0 := by
  apply BitVec.eq_of_toNat_eq
  rw [alignUp_toNat_of_lt page.power (by simpa using page.bytes.isLt)]
  exact Nat.eq_zero_of_le_zero (roundUp_le page.pos le_rfl (Nat.dvd_zero _))

theorem alignUp_ne_zero (page : PageSize) {size : U64} (positive : 0 < size.toNat)
    (exact_ : size.toNat + page.bytes.toNat < 2 ^ 64) : alignUp size page.bytes ≠ 0 := by
  intro zero
  have enough := le_roundUp page.pos size.toNat
  rw [← alignUp_toNat_of_lt page.power exact_, zero] at enough
  exact absurd enough (Nat.not_le.mpr positive)

theorem roundedUp_of_lt (profile : Profile) (page : PageSize) {size : U64}
    (exact_ : size.toNat + page.bytes.toNat < 2 ^ 64) :
    roundedUp profile size page.bytes = some (alignUp size page.bytes) := by
  have positive := page.pos
  rw [roundedUp, if_neg]
  rintro ⟨_, wraps | zero⟩
  · omega
  · rw [zero] at positive
    exact absurd positive (by decide)

/-! ## The descriptor -/

@[simp]
theorem close_cons (fd : RawFd) (descriptors : List RawFd) :
    close fd (fd :: descriptors) = descriptors :=
  List.erase_cons_head fd descriptors

/-- A run that ends with a memfd of this size, or with an error and the
descriptors it started with. -/
def Ran.Clean (size : U64) (descriptors : List RawFd) (ran : Ran) : Prop :=
  (∃ memfd, ran.outcome = .ok memfd ∧ memfd.size = size) ∨
    ∃ error, ran = ⟨.err error, descriptors⟩

/-- The calls before the mapping succeed for an empty memfd. -/
def Os.Empties (os : Os) (name : List UInt8) : Prop :=
  ∃ cName, cString name = .ok cName ∧ os.memfdCreate cName ≠ -1 ∧
    os.ftruncate (os.memfdCreate cName) 0 = .ok ()

theorem Os.sizeAndMap_clean (os : Os) (fd : RawFd) {rounded : U64} (descriptors : List RawFd)
    (mappable : os.ftruncate fd rounded.toInt = .ok () → rounded ≠ 0) :
    (os.sizeAndMap fd rounded (fd :: descriptors)).Clean rounded descriptors := by
  rw [sizeAndMap]
  split
  · exact Or.inr ⟨_, by rw [close_cons]⟩
  · rename_i truncated
    rw [NonZeroUsize.new, dif_pos (mappable truncated)]
    dsimp only
    split
    · exact Or.inr ⟨_, by rw [close_cons]⟩
    · exact Or.inl ⟨_, rfl, rfl⟩

theorem Os.createRounded_clean (os : Os) (name : List UInt8) {rounded : U64}
    (descriptors : List RawFd) (mappable : rounded = 0 → ¬ os.Empties name) :
    (os.createRounded name rounded descriptors).Clean rounded descriptors := by
  rw [createRounded]
  split
  · exact Or.inr ⟨_, rfl⟩
  · rename_i cName converted
    split
    · exact Or.inr ⟨_, rfl⟩
    · rename_i created
      apply os.sizeAndMap_clean
      rintro truncated rfl
      exact mappable rfl ⟨cName, converted, created, truncated⟩

/-- An empty memfd is not mapped: the call panics and its descriptor stays open. -/
theorem Os.createRounded_zero (os : Os) {name : List UInt8} (descriptors : List RawFd)
    (empties : os.Empties name) :
    ∃ fd, os.createRounded name 0 descriptors = ⟨.panicked .zeroLength, fd :: descriptors⟩ := by
  obtain ⟨cName, converted, created, truncated⟩ := empties
  refine ⟨os.memfdCreate cName, ?_⟩
  have zero : (0 : U64).toInt = 0 := rfl
  rw [createRounded, converted]
  dsimp only
  rw [if_neg created, sizeAndMap, zero, truncated]
  rfl

/-! ## Every size -/

/-- What a call that asks for this size does. -/
structure HandlesSize (pageSize size : U64) (descriptors : List RawFd) (ran : Ran) : Prop where
  /-- It returns a memfd of the least number of whole pages, or an error. -/
  returns : (∃ memfd, ran.outcome = .ok memfd ∧
      IsLeast {n | pageSize.toNat ∣ n ∧ size.toNat ≤ n} memfd.size.toNat) ∨
    ∃ error, ran.outcome = .err error
  /-- The addition of the rounding does not wrap. -/
  exact_ : (size + pageSize).toNat = size.toNat + pageSize.toNat
  nonZero : ran.outcome ≠ .panicked .zeroLength
  /-- Without a memfd, its descriptor is closed. -/
  closed : (∀ memfd, ran.outcome ≠ .ok memfd) → ran.descriptors = descriptors

theorem toNat_add_eq_iff {a b : U64} :
    (a + b).toNat = a.toNat + b.toNat ↔ a.toNat + b.toNat < 2 ^ 64 := by
  constructor
  · intro same
    rw [← same]
    exact (a + b).isLt
  · intro small
    exact BitVec.toNat_add_of_lt small

theorem Ran.Clean.handlesSize {page : PageSize} {size : U64} {descriptors : List RawFd} {ran : Ran}
    (exact_ : size.toNat + page.bytes.toNat < 2 ^ 64)
    (clean : ran.Clean (alignUp size page.bytes) descriptors) :
    HandlesSize page.bytes size descriptors ran := by
  have sum := toNat_add_eq_iff.mpr exact_
  rcases clean with ⟨memfd, returned, memfdSize⟩ | ⟨error, rfl⟩
  · have least := isLeast_roundUp page.pos size.toNat
    rw [← alignUp_toNat_of_lt page.power exact_, ← memfdSize] at least
    constructor
    case returns => exact Or.inl ⟨memfd, returned, least⟩
    case exact_ => exact sum
    case nonZero => simp [returned]
    case closed => exact fun failed => absurd returned (failed memfd)
  · constructor
    case returns => exact Or.inr ⟨error, rfl⟩
    case exact_ => exact sum
    case nonZero => simp
    case closed => exact fun _ => rfl

/-- Once the page size is known, a call does what it should exactly when the
addition does not wrap and it does not come to map an empty memfd. -/
theorem Os.handlesSize_iff (os : Os) (profile : Profile) (page : PageSize)
    (name : List UInt8) (size : U64) (descriptors : List RawFd)
    (reported : os.sysconf = .ok (some page.bytes)) :
    HandlesSize page.bytes size descriptors (os.create profile name size descriptors) ↔
      size.toNat + page.bytes.toNat < 2 ^ 64 ∧ (size = 0 → ¬ os.Empties name) := by
  have unfolded (exact_ : size.toNat + page.bytes.toNat < 2 ^ 64) :
      os.create profile name size descriptors =
        os.createRounded name (alignUp size page.bytes) descriptors := by
    simp only [create, reported, roundedUp_of_lt profile page exact_]
  constructor
  · intro handles
    have exact_ := toNat_add_eq_iff.mp handles.exact_
    refine ⟨exact_, ?_⟩
    rintro rfl empties
    obtain ⟨fd, ran⟩ := os.createRounded_zero descriptors empties
    apply handles.nonZero
    rw [unfolded exact_, alignUp_zero, ran]
  · rintro ⟨exact_, empty⟩
    apply Ran.Clean.handlesSize exact_
    rw [unfolded exact_]
    apply os.createRounded_clean
    intro rounded
    apply empty
    by_contra nonZero
    have positive : 0 < size.toNat := Nat.pos_of_ne_zero fun zero =>
      nonZero (BitVec.eq_of_toNat_eq zero)
    exact alignUp_ne_zero page positive exact_ rounded

/-- A system that creates, sizes and maps what it is asked to, and refuses a negative size. -/
def Os.plain (page : PageSize) : Os where
  sysconf := .ok (some page.bytes)
  memfdCreate _ := 3
  lastOsError := ⟨"EMFILE: Too many open files"⟩
  ftruncate _ length := if 0 ≤ length then .ok () else .error ⟨"EINVAL: Invalid argument"⟩
  mmap _ _ := .ok 0x7f0000001000

theorem Os.plain_pages (page : PageSize) : (Os.plain page).Pages page := by
  intro answer reported
  cases reported
  rfl

theorem Os.plain_empties (page : PageSize) : (Os.plain page).Empties [] :=
  ⟨[], rfl, by simp [plain], rfl⟩

/-- Every system lets `create` handle a size exactly when the size is positive
and its sum with the page size is a `usize`. -/
theorem create_handlesSize_iff (profile : Profile) (page : PageSize) (size : U64) :
    (∀ (os : Os) (name : List UInt8) (descriptors : List RawFd), os.Pages page →
      HandlesSize page.bytes size descriptors (os.create profile name size descriptors)) ↔
      0 < size.toNat ∧ size.toNat + page.bytes.toNat < 2 ^ 64 := by
  constructor
  · intro handles
    have plain := handles (.plain page) [] [] (Os.plain_pages page)
    obtain ⟨exact_, empty⟩ :=
      ((Os.plain page).handlesSize_iff profile page [] size [] rfl).mp plain
    refine ⟨Nat.pos_of_ne_zero fun zero => ?_, exact_⟩
    exact empty (BitVec.eq_of_toNat_eq zero) (Os.plain_empties page)
  · rintro ⟨positive, exact_⟩ os name descriptors pages
    cases reported : os.sysconf with
    | error errno =>
        apply Ran.Clean.handlesSize exact_
        exact Or.inr ⟨_, by rw [Os.create, reported]⟩
    | ok answer =>
        rw [pages answer reported] at reported
        apply (os.handlesSize_iff profile page name size descriptors reported).mpr
        refine ⟨exact_, ?_⟩
        rintro rfl
        exact absurd positive (by decide)

/-- The page size of most systems. -/
def fourKiB : PageSize :=
  ⟨4096, 12, rfl⟩

/-- `"test"` -/
def testName : List UInt8 :=
  [116, 101, 115, 116]

theorem create_handlesSize_iff_thousand :
    HandlesSize 4096 1000 [] ((Os.plain fourKiB).create .release testName 1000 []) :=
  (create_handlesSize_iff .release fourKiB 1000).mpr ⟨by decide, by decide⟩ (.plain fourKiB)
    testName [] (Os.plain_pages fourKiB)

/-- An empty memfd panics and leaves its descriptor open, as does one of `usize::MAX` bytes,
whose size wraps. -/
theorem create_empty_leaks :
    (Os.plain fourKiB).create .release testName 0 [] = ⟨.panicked .zeroLength, [3]⟩ ∧
      (Os.plain fourKiB).create .release testName (-1) [] = ⟨.panicked .zeroLength, [3]⟩ ∧
      ¬ HandlesSize 4096 0 [] ((Os.plain fourKiB).create .release testName 0 []) := by
  have empty : (Os.plain fourKiB).create .release testName 0 [] =
      ⟨.panicked .zeroLength, [3]⟩ := by
    decide
  refine ⟨empty, by decide, ?_⟩
  intro handles
  rw [empty] at handles
  exact handles.nonZero rfl

/-! ## The memfd of the allocator -/

/-- `memfd` is what the system answered to the calls for this many bytes. -/
structure Os.Answered (os : Os) (rounded : U64) (memfd : MappedFd) : Prop where
  size : memfd.size = rounded
  truncated : os.ftruncate memfd.fd rounded.toInt = .ok ()
  mapped : ∃ length : NonZeroUsize, length.value = rounded ∧
    os.mmap length memfd.fd = .ok memfd.data

theorem Os.sizeAndMap_answered {os : Os} {fd : RawFd} {rounded : U64}
    {descriptors : List RawFd} {memfd : MappedFd}
    (returned : (os.sizeAndMap fd rounded descriptors).outcome = .ok memfd) :
    os.Answered rounded memfd := by
  rw [sizeAndMap] at returned
  split at returned
  · contradiction
  · rename_i truncated
    split at returned
    · contradiction
    · rename_i length nonZero
      split at returned
      · contradiction
      · rename_i data mapped
        cases returned
        exact ⟨rfl, truncated, length, NonZeroUsize.value_of_new nonZero, mapped⟩

theorem Os.createRounded_answered {os : Os} {name : List UInt8} {rounded : U64}
    {descriptors : List RawFd} {memfd : MappedFd}
    (returned : (os.createRounded name rounded descriptors).outcome = .ok memfd) :
    os.Answered rounded memfd := by
  rw [createRounded] at returned
  split at returned
  · contradiction
  · split at returned
    · contradiction
    · exact sizeAndMap_answered returned

theorem Os.create_answered {os : Os} {profile : Profile} {name : List UInt8}
    {size pageSize : U64} {descriptors : List RawFd} {memfd : MappedFd}
    (reported : os.sysconf = .ok (some pageSize))
    (returned : (os.create profile name size descriptors).outcome = .ok memfd) :
    os.Answered (alignUp size pageSize) memfd := by
  rw [create, reported] at returned
  dsimp only at returned
  split at returned
  · contradiction
  · rename_i rounded some_
    rw [roundedUp] at some_
    split at some_
    · contradiction
    · cases some_
      exact createRounded_answered returned

/-- Where the system refuses negative sizes, a created memfd is one that the allocator uses. -/
theorem Os.create_memFd {os : Os} {profile : Profile} {name : List UInt8}
    {size pageSize : U64} {descriptors : List RawFd} {memfd : MappedFd}
    (reported : os.sysconf = .ok (some pageSize))
    (refuses : ∀ fd length, os.ftruncate fd length = .ok () → 0 ≤ length)
    (returned : (os.create profile name size descriptors).outcome = .ok memfd) :
    ∃ created, MemFd.create pageSize size = some created ∧ created.size = memfd.size := by
  have answered := create_answered reported returned
  have nonNegative := refuses _ _ answered.truncated
  obtain ⟨length, value, _⟩ := answered.mapped
  have fits : (alignUp size pageSize).toNat ≤ ISIZE_MAX := by
    rw [BitVec.toInt_eq_toNat_cond] at nonNegative
    have small := (alignUp size pageSize).isLt
    unfold ISIZE_MAX
    split at nonNegative
    · omega
    · omega
  have nonZero : alignUp size pageSize ≠ 0 := value ▸ length.nonZero
  refine ⟨⟨alignUp size pageSize, fits⟩, ?_, answered.size.symm⟩
  rw [MemFd.create, dif_pos fits, if_neg nonZero]

end Schtest.Shared
