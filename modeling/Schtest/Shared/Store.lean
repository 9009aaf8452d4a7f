import Schtest.Collections.Regions
import Schtest.Shared.Bump

/-!
# Objects in shared memory

`SharedBox::new` and `SharedVec` place values in the blocks that `alloc` claims,
and hand out handles by which any thread loads and stores their bytes.  Claiming
a block, storing each byte of the new value and returning the handle are separate
steps, interleaved with the loads and stores of the other threads; those may be
threads of other processes, which share the mapping and do not allocate.

The objects behave as independent cells, each of which appears at once with its
value.
-/

namespace Schtest.Shared

open Schtest.Transition Schtest.Collections

universe u

/-! ## The store -/

/-- An object, at its offset in the mapping. -/
structure Object where
  layout : Layout
  offset : U64

namespace Object

/-- `ptr.add(pos)`, in bytes. -/
def address (object : Object) (pos : Nat) : Nat :=
  object.offset.toNat + pos

/-- The offsets of the bytes of an object. -/
def region (object : Object) : Set Nat :=
  Set.Ico object.offset.toNat (object.offset.toNat + object.layout.size.toNat)

theorem address_mem_region {object : Object} {pos : Nat}
    (inside : pos < object.layout.size.toNat) : object.address pos ∈ object.region :=
  ⟨Nat.le_add_right _ _, Nat.add_lt_add_left inside _⟩

theorem address_ne (object : Object) {pos pos' : Nat} (different : pos ≠ pos') :
    object.address pos ≠ object.address pos' :=
  fun same => different (Nat.add_left_cancel same)

end Object

/-- The bytes that `ptr::write` puts into a block of this layout. -/
structure Value where
  layout : Layout
  bytes : List UInt8
  fits : bytes.length ≤ layout.size.toNat

/-- A byte that was loaded through a handle. -/
structure Load where
  object : Nat
  pos : Nat
  byte : UInt8
  deriving DecidableEq, Repr

/-- The allocator with its mapping, the objects in the order of their handles,
and the loads so far, newest first. -/
structure Store where
  allocator : BumpAllocator
  memory : Nat → UInt8
  objects : List Object
  loads : List Load

/-- A new mapping is filled with zeros. -/
def Store.new : Store where
  allocator := .new
  memory _ := 0
  objects := []
  loads := []

/-- Store one byte. -/
def Store.write (store : Store) (address : Nat) (byte : UInt8) : Store :=
  { store with memory := Function.update store.memory address byte }

/-- Where a thread is. -/
inductive StorePc
  | idle
  /-- In `alloc`, for a new object with this value. -/
  | allocating (value : Value) (pc : AllocPc)
  /-- Writing the value of a new object, of which so many bytes are written. -/
  | filling (value : Value) (offset : U64) (written : Nat)
  /-- Storing bytes through a handle. -/
  | storing (object pos : Nat) (bytes : List UInt8)

/-- What a thread begins, or that it goes on. -/
inductive StoreAction
  | create (value : Value)
  | store (object pos : Nat) (bytes : List UInt8)
  | load (object pos : Nat)
  | run

/-- One atomic step of a thread. -/
def Store.step (memfd : MemFd) (store : Store) (pc : StorePc) (action : StoreAction) :
    Option (Store × StorePc) :=
  match pc, action with
  | .idle, .create value => some (store, .allocating value .load)
  | .idle, .store object pos bytes =>
      store.objects[object]?.bind fun target =>
        if pos + bytes.length ≤ target.layout.size.toNat then
          some (store, .storing object pos bytes)
        else none
  | .idle, .load object pos =>
      store.objects[object]?.bind fun target =>
        if pos < target.layout.size.toNat then
          let byte := store.memory (target.address pos)
          some ({ store with loads := ⟨object, pos, byte⟩ :: store.loads }, .idle)
        else none
  | .allocating value pc, .run =>
      let out := allocStep memfd value.layout store.allocator.next pc
      match out.state with
      | .running pc =>
          some ({ store with allocator := ⟨out.next, store.allocator.log⟩ }, .allocating value pc)
      | .returned result =>
          let allocation := ⟨value.layout, result, out.stored.toNat⟩
          let storeNext :=
            { store with allocator := ⟨out.next, allocation :: store.allocator.log⟩ }
          match result with
          -- `Err("Failed to allocate memory")`
          | none => some (storeNext, .idle)
          | some offset => some (storeNext, .filling value offset 0)
  | .filling value offset written, .run =>
      let object : Object := ⟨value.layout, offset⟩
      match value.bytes[written]? with
      | some byte =>
          some (store.write (object.address written) byte, .filling value offset (written + 1))
      | none => some ({ store with objects := store.objects ++ [object] }, .idle)
  | .storing object pos (byte :: rest), .run =>
      store.objects[object]?.map fun target =>
        (store.write (target.address pos) byte, .storing object (pos + 1) rest)
  | .storing _ _ [], .run => some (store, .idle)
  | _, _ => none

/-- Any number of threads over one new mapping. -/
def storeProgram (ι : Type u) (memfd : MemFd) : Program ι Store StorePc StoreAction where
  initShared store := store = .new
  initLocal _ pc := pc = .idle
  step _ := Store.step memfd

/-- All interleavings of threads that create objects and access them. -/
abbrev storeSystem (ι : Type u) [DecidableEq ι] (memfd : MemFd) :
    System (Threads ι Store StorePc) (ι × StoreAction) :=
  (storeProgram ι memfd).system

/-! ## Independent cells -/

/-- An object as its users see it: its size, and a byte at each position. -/
structure Cell where
  layout : Layout
  contents : Nat → UInt8

/-- A new object holds its value, and zeros behind it. -/
def Value.cell (value : Value) : Cell where
  layout := value.layout
  contents pos := value.bytes.getD pos 0

/-- Cells that do not know of each other, and what was loaded from them. -/
structure Cells where
  cells : List Cell
  loads : List Load

/-- What is done to cells. -/
inductive CellAction
  | create (value : Value)
  | store (object pos : Nat) (byte : UInt8)
  | load (object pos : Nat)

/-- Each object on its own. -/
def Cells.step (state : Cells) : CellAction → Option Cells
  | .create value => some { state with cells := state.cells ++ [value.cell] }
  | .store object pos byte =>
      state.cells[object]?.bind fun cell =>
        if pos < cell.layout.size.toNat then
          let contents := Function.update cell.contents pos byte
          some { state with cells := state.cells.set object { cell with contents := contents } }
        else none
  | .load object pos =>
      state.cells[object]?.bind fun cell =>
        if pos < cell.layout.size.toNat then
          some { state with loads := ⟨object, pos, cell.contents pos⟩ :: state.loads }
        else none

/-- The system of the cells, which starts without any. -/
def cellsSystem : System Cells CellAction where
  init state := state = ⟨[], []⟩
  step := Cells.step

/-! ## What a step does -/

/-- The program counter is one that the code can be at. -/
def StorePc.Valid (memfd : MemFd) (store : Store) : StorePc → Prop
  | .idle => True
  | .allocating value pc => pc.Valid memfd value.layout
  | .filling value offset written =>
      written ≤ value.bytes.length ∧ ∀ pos < value.layout.size.toNat,
        store.memory (Object.address ⟨value.layout, offset⟩ pos) =
          if pos < written then value.bytes.getD pos 0 else 0
  | .storing object pos bytes => ∃ target, store.objects[object]? = some target ∧
      pos + bytes.length ≤ target.layout.size.toNat

/-- The possible effects of a step. -/
inductive StoreEffect (memfd : MemFd) (store : Store) : StorePc → Store → StorePc → Prop
  | begins (value : Value) : StoreEffect memfd store .idle store (.allocating value .load)
  | stores {object pos bytes target} : store.objects[object]? = some target →
      pos + bytes.length ≤ target.layout.size.toNat →
      StoreEffect memfd store .idle store (.storing object pos bytes)
  | loads {object pos target} : store.objects[object]? = some target →
      pos < target.layout.size.toNat →
      StoreEffect memfd store .idle { store with
        loads := ⟨object, pos, store.memory (target.address pos)⟩ :: store.loads } .idle
  | allocates {value pc pcNext} : pcNext.Valid memfd value.layout →
      StoreEffect memfd store (.allocating value pc) store (.allocating value pcNext)
  | refused {value pc log} :
      StoreEffect memfd store (.allocating value pc)
        { store with allocator := ⟨store.allocator.next, log⟩ } .idle
  | claims {value pc aligned stop log} : store.allocator.next.toNat ≤ aligned.toNat →
      stop.toNat = aligned.toNat + value.layout.size.toNat → stop.toNat ≤ memfd.size.toNat →
      StoreEffect memfd store (.allocating value pc)
        { store with allocator := ⟨stop, log⟩ } (.filling value aligned 0)
  | fills {value offset written byte} : value.bytes[written]? = some byte →
      StoreEffect memfd store (.filling value offset written)
        (store.write (Object.address ⟨value.layout, offset⟩ written) byte)
        (.filling value offset (written + 1))
  | publishes {value offset written} : value.bytes.length ≤ written →
      StoreEffect memfd store (.filling value offset written)
        { store with objects := store.objects ++ [⟨value.layout, offset⟩] } .idle
  | writes {object pos byte rest target} : store.objects[object]? = some target →
      StoreEffect memfd store (.storing object pos (byte :: rest))
        (store.write (target.address pos) byte)
        (.storing object (pos + 1) rest)
  | stored {object pos} : StoreEffect memfd store (.storing object pos []) store .idle

theorem storeEffect_of_step {memfd : MemFd} {store storeNext : Store} {pc pcNext : StorePc}
    {action : StoreAction} (bounded : store.allocator.next.toNat ≤ memfd.size.toNat)
    (valid : pc.Valid memfd store)
    (step : store.step memfd pc action = some (storeNext, pcNext)) :
    StoreEffect memfd store pc storeNext pcNext := by
  unfold Store.step at step
  split at step
  case h_1 value =>
    cases step
    exact .begins value
  case h_2 object pos bytes =>
    obtain ⟨target, here, step⟩ := Option.bind_eq_some_iff.mp step
    split at step
    · rename_i inside
      cases step
      exact .stores here inside
    · contradiction
  case h_3 object pos =>
    obtain ⟨target, here, step⟩ := Option.bind_eq_some_iff.mp step
    split at step
    · rename_i inside
      cases step
      exact .loads here inside
    · contradiction
  case h_4 value pc =>
    have effect := allocEffect_of_valid bounded valid
    revert step
    dsimp only
    generalize allocStep memfd value.layout store.allocator.next pc = out at effect
    intro step
    cases effect with
    | running pcValid =>
        cases step
        exact .allocates pcValid
    | refused =>
        cases step
        exact .refused
    | claimed start _ size inside =>
        cases step
        exact .claims start size inside
  case h_5 value offset written =>
    dsimp only at step
    split at step
    · rename_i byte here
      cases step
      exact .fills here
    · rename_i done
      cases step
      exact .publishes (List.getElem?_eq_none_iff.mp done)
  case h_6 object pos byte rest =>
    obtain ⟨target, here, same⟩ := Option.map_eq_some_iff.mp step
    cases same
    exact .writes here
  case h_7 object pos =>
    cases step
    exact .stored
  case h_8 => contradiction

end Schtest.Shared
