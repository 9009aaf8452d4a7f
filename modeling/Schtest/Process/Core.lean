import Schtest.Semaphore.Effect
import Schtest.Transition.Core

/-!
# One process and its parent

A process shares two semaphores of capacity one and an iteration count with
its parent.  The child runs an arbitrary body which calls `get_iters` as often
as it likes and may exit at any moment; the parent performs `create`, `start`
and `wait`.  Both are modelled one atomic operation at a time.

The semaphores have no wake timers, so that no step reads the clock.
-/

namespace Schtest.Process

open Schtest.Semaphore

/-- The two threads that use the semaphores of a process. -/
inductive Party
  | parent
  | child
  deriving DecidableEq, Repr

/-! ## The child -/

/-- Where the child is. -/
inductive ChildPc
  /-- Not forked yet. -/
  | unborn
  /-- In the body, outside `get_iters`. -/
  | body
  /-- In `child_ready.produce(1, 1, None)`. -/
  | ready (pc : Pc)
  /-- In `child_start.consume(1, 1, None)`. -/
  | start (pc : Pc)
  /-- About to swap the iteration count. -/
  | swap
  | exited
  deriving DecidableEq, Repr

/-- The child, with the number of times `get_iters` has been called and the
values it has returned, oldest first. -/
structure Child where
  pc : ChildPc
  calls : Nat
  returns : List U32
  deriving DecidableEq, Repr

end Schtest.Process

namespace Schtest

open Schtest.Semaphore Schtest.Process

/-- What a process shares with its parent, and the child itself. -/
structure Process where
  child : Child
  start : Semaphore 0 0 Party
  ready : Semaphore 0 0 Party
  iters : U32

end Schtest

namespace Schtest.Process

open Schtest.Semaphore Schtest.Transition

/-- The shared memory allocated by `create`, before the fork. -/
def allocated : Process where
  child := ⟨.unborn, 0, []⟩
  start := new 1 nofun
  ready := new 1 nofun
  iters := 0

/-- Move the child to another program counter. -/
def setChild (proc : Process) (pc : ChildPc) : Process :=
  { proc with child := { proc.child with pc := pc } }

@[simp]
theorem setChild_child (proc : Process) (pc : ChildPc) :
    (proc.setChild pc).child = { proc.child with pc := pc } :=
  rfl

@[simp]
theorem setChild_start (proc : Process) (pc : ChildPc) : (proc.setChild pc).start = proc.start :=
  rfl

@[simp]
theorem setChild_ready (proc : Process) (pc : ChildPc) : (proc.setChild pc).ready = proc.ready :=
  rfl

@[simp]
theorem setChild_iters (proc : Process) (pc : ChildPc) : (proc.setChild pc).iters = proc.iters :=
  rfl

/-- `child_ready.produce(1, 1, None)`. -/
def childReadyProduce : Call := produce 1 1 none

/-- `child_start.consume(1, 1, None)`. -/
def childStartConsume : Call := consume 1 1 none

/-- `self.start.produce(1, 1, None)`. -/
def startProduce : Call := produce 1 1 none

/-- `self.ready.consume(1, 1, Some(Duration::from_secs(1)))`. -/
def readyConsume : Call := consume 1 1 (some 1000000000)

/-- A step of a party inside the code of this file. -/
inductive Turn
  /-- Go on with the next statement. -/
  | proceed
  /-- Perform the next atomic step of the semaphore call in progress. -/
  | sem (choice : Choice Party)
  deriving DecidableEq, Repr

/-- A step of the child. -/
inductive ChildTurn
  | turn (turn : Turn)
  /-- The body does something that does not concern the handshake. -/
  | work
  /-- The body calls `get_iters`. -/
  | call
  /-- The body returns or fails, or the child is killed, wherever it is. -/
  | exit
  deriving DecidableEq, Repr

/-- The child is gone; a futex queue does not keep the dead. -/
def exitChild (proc : Process) : Process where
  child := { proc.child with pc := .exited }
  start := { proc.start with queue := proc.start.queue.erase .child }
  ready := { proc.ready with queue := proc.ready.queue.erase .child }
  iters := proc.iters

/-- One step of the child. -/
def childStep (proc : Process) : ChildTurn → Option Process
  | .work => if proc.child.pc = .body then some proc else none
  | .call =>
      if proc.child.pc = .body then
        some { proc with
          child := { proc.child with pc := .ready .load, calls := proc.child.calls + 1 } }
      else none
  | .exit =>
      if proc.child.pc = .unborn ∨ proc.child.pc = .exited then none else some proc.exitChild
  | .turn .proceed =>
      match proc.child.pc with
      | .ready call => call.result.map fun _ => proc.setChild (.start .load)
      | .start call =>
          call.result.map fun result => if result then proc.setChild .swap else proc.exitChild
      | .swap =>
          some { proc with
            child := { proc.child with
              pc := .body, returns := proc.child.returns ++ [proc.iters] }
            iters := 0 }
      | _ => none
  | .turn (.sem choice) =>
      match proc.child.pc with
      | .ready call =>
          (childReadyProduce.step 0 .child proc.ready call choice).map fun out =>
            { proc.setChild (.ready out.pc) with ready := out.sem }
      | .start call =>
          (childStartConsume.step 0 .child proc.start call choice).map fun out =>
            { proc.setChild (.start out.pc) with start := out.sem }
      | _ => none

/-! ## The parent -/

/-- What the parent does with a process. -/
inductive ParentOp
  | create
  | start (iters : U32)
  | wait
  deriving DecidableEq, Repr

/-- Where the parent is in an operation on this process. -/
inductive ParentPc
  /-- Between two operations. -/
  | idle
  /-- In `start`, about to store the iteration count. -/
  | store (iters : U32)
  /-- In `self.start.produce(1, 1, None)`. -/
  | produce (pc : Pc)
  /-- In `self.ready.consume(1, 1, Some(1s))`. -/
  | consume (pc : Pc)
  /-- The consume has timed out: about to ask whether the child is alive. -/
  | alive
  /-- `wait` has returned an error. -/
  | failed
  deriving DecidableEq, Repr

/-- The first statement of an operation: the fork in `create`, nothing else in
`start` and `wait`. -/
def beginOp (proc : Process) : ParentOp → Process × ParentPc
  | .create => (proc.setChild .body, .consume .load)
  | .start iters => (proc, .store iters)
  | .wait => (proc, .consume .load)

/-- One step of the parent in operation `op`, which is over when the parent is
idle again. -/
def parentStep (proc : Process) (op : ParentOp) (pc : ParentPc) :
    Turn → Option (Process × ParentPc)
  | .proceed =>
      match pc with
      | .idle => some (proc.beginOp op)
      | .store iters => some ({ proc with iters := iters }, .produce .load)
      | .produce call => call.result.map fun _ => (proc, .idle)
      | .consume call =>
          call.result.map fun result => (proc, if result then .idle else .alive)
      | .alive => some (proc, if proc.child.pc = .exited then .failed else .consume .load)
      | .failed => none
  | .sem choice =>
      match pc with
      | .produce call =>
          (startProduce.step 0 .parent proc.start call choice).map fun out =>
            ({ proc with start := out.sem }, .produce out.pc)
      | .consume call =>
          (readyConsume.step 0 .parent proc.ready call choice).map fun out =>
            ({ proc with ready := out.sem }, .consume out.pc)
      | _ => none

/-! ## The handshake of one parent and one child -/

/-- A process with its parent; the first operation the parent still has to do
is in progress unless the parent is idle. -/
structure Handshake where
  proc : Process
  parent : ParentPc
  todo : List ParentOp

/-- A step of either side. -/
inductive Move
  | parent (turn : Turn)
  | child (turn : ChildTurn)
  deriving DecidableEq, Repr

/-- What is left to do once the parent is at `pc`. -/
def remainingOps {α : Type} (pc : ParentPc) (todo : List α) : List α :=
  if pc = .idle then todo.tail else todo

/-- One step of either side; the parent works off its operations. -/
def Handshake.step (state : Handshake) : Move → Option Handshake
  | .child turn => (childStep state.proc turn).map fun proc => { state with proc := proc }
  | .parent turn =>
      match state.todo with
      | [] => none
      | op :: rest =>
          (parentStep state.proc op state.parent turn).map fun result =>
            ⟨result.1, result.2, remainingOps result.2 (op :: rest)⟩

/-- The operations of the given rounds. -/
def roundOps (rounds : List U32) : List ParentOp :=
  rounds.flatMap fun iters => [.start iters, .wait]

/-- The parent is about to create the process and to perform the rounds. -/
def Handshake.initial (rounds : List U32) : Handshake :=
  ⟨allocated, .idle, .create :: roundOps rounds⟩

/-- All interleavings of the parent and the child. -/
def handshakeSystem (rounds : List U32) : System Handshake Move where
  init state := state = .initial rounds
  step := Handshake.step

@[simp]
theorem handshakeSystem_step (rounds : List U32) (state : Handshake) (move : Move) :
    (handshakeSystem rounds).step state move = state.step move :=
  rfl

end Schtest.Process
