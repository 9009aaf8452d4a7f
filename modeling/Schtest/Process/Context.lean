import Schtest.Process.Rounds
import Mathlib.Data.List.FinRange
import Mathlib.Data.List.Infix

/-!
# Rounds of a context

A context runs its processes in rounds: `start` releases every process and
`wait` waits for each of them in turn.  The parent is one sequential program,
the children run concurrently.  Seen from one process, the operations on the
other processes are stuttering, so that every process makes the handshake.
-/

namespace Schtest.Process

open Schtest.Semaphore Schtest.Transition

universe u

/-- A statement of the parent's program. -/
inductive ContextOp (m : Nat)
  /-- An operation on one process. -/
  | process (i : Fin m) (op : ParentOp)
  /-- `self.running.start()`. -/
  | run
  /-- `self.running.stop()`. -/
  | stop
  /-- The last `self.running.stop()` of `wait`, which then returns `Ok`. -/
  | finish
  deriving DecidableEq, Repr

end Schtest.Process

namespace Schtest

open Schtest.Semaphore Schtest.Process

/-- A context of `m` processes with the parent's program, and how often
`Context::wait` has returned `Ok`. -/
structure Context (m : Nat) where
  running : Bool
  processes : Fin m → Process
  parent : ParentPc
  todo : List (ContextOp m)
  waits : Nat

end Schtest

namespace Schtest.Context

open Schtest.Semaphore Schtest.Process Schtest.Transition

universe u

/-- A step of the parent or of one of the children. -/
inductive Move (m : Nat)
  | parent (turn : Turn)
  | child (i : Fin m) (turn : ChildTurn)
  deriving DecidableEq, Repr

variable {m : Nat}

/-- A statement on the running flag. -/
def setRunning (ctx : Context m) (running : Bool) (rest : List (ContextOp m)) (waits : Nat)
    (turn : Turn) : Option (Context m) :=
  if ctx.parent = .idle ∧ turn = .proceed then
    some { ctx with running := running, todo := rest, waits := waits }
  else none

/-- One step of the parent or of one of the children. -/
def step (ctx : Context m) : Move m → Option (Context m)
  | .child i turn =>
      (childStep (ctx.processes i) turn).map fun proc =>
        { ctx with processes := Function.update ctx.processes i proc }
  | .parent turn =>
      match ctx.todo with
      | [] => none
      | .process i op :: rest =>
          (parentStep (ctx.processes i) op ctx.parent turn).map fun result =>
            { ctx with
              processes := Function.update ctx.processes i result.1
              parent := result.2
              todo := remainingOps result.2 (.process i op :: rest) }
      | .run :: rest => ctx.setRunning true rest ctx.waits turn
      | .stop :: rest => ctx.setRunning false rest ctx.waits turn
      | .finish :: rest => ctx.setRunning false rest (ctx.waits + 1) turn

/-- The same operation on every process. -/
def each (m : Nat) (op : ParentOp) : List (ContextOp m) :=
  (List.finRange m).flatMap fun i => [.process i op]

/-- `ctx.start(iters)`. -/
def startOps (m : Nat) (iters : U32) : List (ContextOp m) :=
  .run :: each m (.start iters)

/-- `ctx.wait()`. -/
def waitOps (m : Nat) : List (ContextOp m) :=
  ((List.finRange m).flatMap fun i => [.process i .wait, .stop]) ++ [.finish]

/-- The rounds of `start` and `wait`. -/
def roundsOps (m : Nat) (rounds : List U32) : List (ContextOp m) :=
  rounds.flatMap fun iters => startOps m iters ++ waitOps m

/-- The parent is about to create `m` processes and to perform the rounds. -/
def initial (m : Nat) (rounds : List U32) : Context m where
  running := false
  processes _ := allocated
  parent := .idle
  todo := each m .create ++ roundsOps m rounds
  waits := 0

/-- All interleavings of the parent and the children. -/
def system (m : Nat) (rounds : List U32) : System (Context m) (Move m) where
  init ctx := ctx = initial m rounds
  step := step

/-! ## The view of one process -/

/-- The operations of the program on process `i`. -/
def opOf (i : Fin m) : ContextOp m → Option ParentOp
  | .process j op => if j = i then some op else none
  | _ => none

/-- Where the parent is in its operation on process `i`. -/
def parentOf (i : Fin m) (pc : ParentPc) : List (ContextOp m) → ParentPc
  | .process j _ :: _ => if j = i then pc else .idle
  | _ => .idle

/-- The handshake of process `i` with the parent. -/
def project (ctx : Context m) (i : Fin m) : Handshake :=
  ⟨ctx.processes i, parentOf i ctx.parent ctx.todo, ctx.todo.filterMap (opOf i)⟩

@[simp]
theorem parentOf_idle (i : Fin m) (todo : List (ContextOp m)) : parentOf i .idle todo = .idle := by
  unfold parentOf
  split
  · split <;> rfl
  · rfl

@[simp]
theorem parentOf_self (i : Fin m) (pc : ParentPc) (op : ParentOp) (rest : List (ContextOp m)) :
    parentOf i pc (.process i op :: rest) = pc :=
  if_pos rfl

theorem parentOf_of_ne {i j : Fin m} (other : j ≠ i) (pc : ParentPc) (op : ParentOp)
    (rest : List (ContextOp m)) : parentOf i pc (.process j op :: rest) = .idle :=
  if_neg other

/-- What a list of blocks, one for each process, asks of process `i`. -/
theorem filterMap_flatMap_eq_replicate {i : Fin m} {block : Fin m → List (ContextOp m)}
    (op : ParentOp) (own : (block i).filterMap (opOf i) = [op])
    (other : ∀ j, j ≠ i → (block j).filterMap (opOf i) = []) (processes : List (Fin m)) :
    (processes.flatMap block).filterMap (opOf i) = List.replicate (processes.count i) op := by
  induction processes with
  | nil => rfl
  | cons j rest ih =>
      rw [List.flatMap_cons, List.filterMap_append, ih]
      by_cases same : j = i
      · subst same
        rw [own, List.count_cons_self, List.replicate_succ]
        rfl
      · rw [other j same, List.count_cons_of_ne same]
        rfl

theorem count_finRange (i : Fin m) : (List.finRange m).count i = 1 :=
  List.count_eq_one_of_mem (List.nodup_finRange m) (List.mem_finRange i)

theorem each_filterMap (i : Fin m) (op : ParentOp) : (each m op).filterMap (opOf i) = [op] := by
  rw [each, filterMap_flatMap_eq_replicate op (by simp [opOf])
    (fun j other => by simp [opOf, other]), count_finRange]
  rfl

theorem waitOps_filterMap (i : Fin m) : (waitOps m).filterMap (opOf i) = [.wait] := by
  rw [waitOps, List.filterMap_append, filterMap_flatMap_eq_replicate .wait
    (by simp [opOf]) (fun j other => by simp [opOf, other]), count_finRange]
  rfl

theorem roundsOps_cons (m : Nat) (iters : U32) (rest : List U32) :
    roundsOps m (iters :: rest) = startOps m iters ++ waitOps m ++ roundsOps m rest :=
  rfl

/-- The program of the context contains the handshake's program. -/
theorem roundsOps_filterMap (i : Fin m) (rounds : List U32) :
    (roundsOps m rounds).filterMap (opOf i) = roundOps rounds := by
  induction rounds with
  | nil => rfl
  | cons iters rest ih =>
      rw [roundsOps_cons, List.filterMap_append, List.filterMap_append, ih, waitOps_filterMap,
        startOps, List.filterMap_cons]
      simp [opOf, each_filterMap]

/-- Inversion of a statement on the running flag. -/
theorem setRunning_eq_some {ctx next : Context m} {running : Bool} {rest : List (ContextOp m)}
    {waits : Nat} {turn : Turn} (step : ctx.setRunning running rest waits turn = some next) :
    ctx.parent = .idle ∧ next = { ctx with running := running, todo := rest, waits := waits } := by
  unfold setRunning at step
  split at step
  · rename_i idle
    cases step
    exact ⟨idle.1, rfl⟩
  · contradiction

/-- The parent's operation on another process is invisible to process `i`. -/
theorem parentOf_remainingOps {i j : Fin m} (other : j ≠ i) (pc : ParentPc) (op : ParentOp)
    (rest : List (ContextOp m)) :
    parentOf i pc (remainingOps pc (.process j op :: rest)) = .idle := by
  by_cases idle : pc = .idle
  · rw [idle, parentOf_idle]
  · rw [remainingOps_of_ne idle, parentOf_of_ne other]

/-- The parent's operation on process `i` is an operation of the handshake. -/
theorem parentOf_remainingOps_self (i : Fin m) (pc : ParentPc) (op : ParentOp)
    (rest : List (ContextOp m)) :
    parentOf i pc (remainingOps pc (.process i op :: rest)) = pc := by
  by_cases idle : pc = .idle
  · rw [idle, parentOf_idle]
  · rw [remainingOps_of_ne idle, parentOf_self]

theorem filterMap_remainingOps {i j : Fin m} (other : j ≠ i) (pc : ParentPc) (op : ParentOp)
    (rest : List (ContextOp m)) :
    (remainingOps pc (.process j op :: rest)).filterMap (opOf i) = rest.filterMap (opOf i) := by
  unfold remainingOps
  split
  · rfl
  · simp [opOf, other]

theorem filterMap_remainingOps_self (i : Fin m) (pc : ParentPc) (op : ParentOp)
    (rest : List (ContextOp m)) :
    (remainingOps pc (.process i op :: rest)).filterMap (opOf i) =
      remainingOps pc (op :: rest.filterMap (opOf i)) := by
  unfold remainingOps
  split
  · rfl
  · simp [opOf]

/-- A statement on the running flag is invisible to every process. -/
theorem project_setRunning {ctx next : Context m} {running : Bool} {op : ContextOp m}
    {rest : List (ContextOp m)} {waits : Nat} {turn : Turn} (i : Fin m)
    (todo : ctx.todo = op :: rest) (silent : opOf i op = none)
    (step : ctx.setRunning running rest waits turn = some next) :
    next.project i = ctx.project i := by
  obtain ⟨idle, rfl⟩ := setRunning_eq_some step
  simp only [project, idle, parentOf_idle, todo, List.filterMap_cons, silent]

/-- Every process of a context makes the handshake. -/
theorem context_refines_handshake (m : Nat) (rounds : List U32) (i : Fin m) :
    Refinement (system m rounds) (handshakeSystem rounds)
      (fun ctx state => state = ctx.project i) where
  init := by
    rintro ctx rfl
    refine ⟨_, ?_, rfl⟩
    simp only [handshakeSystem, initial, Handshake.initial, project, parentOf_idle,
      List.filterMap_append, each_filterMap, roundsOps_filterMap]
    rfl
  step := by
    rintro ctx move next state _ step rfl
    change Context.step ctx move = some next at step
    unfold Context.step at step
    split at step
    case h_1 j turn => -- a child
      obtain ⟨proc, childStep, rfl⟩ := Option.map_eq_some_iff.mp step
      by_cases same : j = i
      · subst same
        refine Or.inr ⟨.child turn, _, ?_, rfl⟩
        simp [Handshake.step, project, childStep]
      · exact Or.inl (by simp [project, Function.update_of_ne (Ne.symm same)])
    case h_2 turn => -- the parent
      split at step
      case h_1 => contradiction
      case h_2 j op rest todo =>
        obtain ⟨⟨proc, pc⟩, parentStep, rfl⟩ := Option.map_eq_some_iff.mp step
        by_cases same : j = i
        · subst same
          refine Or.inr ⟨.parent turn, _, ?_, rfl⟩
          simp [Handshake.step, project, todo, opOf, parentStep, parentOf_remainingOps_self,
            filterMap_remainingOps_self]
        · left
          simp [project, todo, opOf, Function.update_of_ne (Ne.symm same), same,
            parentOf_of_ne same, parentOf_remainingOps same, filterMap_remainingOps same]
      case h_3 rest todo => exact Or.inl (project_setRunning i todo rfl step).symm
      case h_4 rest todo => exact Or.inl (project_setRunning i todo rfl step).symm
      case h_5 rest todo => exact Or.inl (project_setRunning i todo rfl step).symm

/-! ## Waits that have returned -/

/-- Waits for process `i` that are still to be made. -/
def waitsFor (i : Fin m) (todo : List (ContextOp m)) : Nat :=
  (todo.filterMap (opOf i)).count .wait

/-- From any point of the program on, every wait for process `i` is followed by
the end of a `Context::wait` of its own. -/
def Finishes (i : Fin m) (program : List (ContextOp m)) : Prop :=
  ∀ todo, todo <:+ program → waitsFor i todo ≤ todo.count .finish

theorem waitsFor_append (i : Fin m) (first second : List (ContextOp m)) :
    waitsFor i (first ++ second) = waitsFor i first + waitsFor i second := by
  simp [waitsFor]

theorem Finishes.append {i : Fin m} {first second : List (ContextOp m)}
    (firstFinishes : Finishes i first) (secondFinishes : Finishes i second) :
    Finishes i (first ++ second) := by
  intro todo suffix
  rcases List.suffix_or_suffix_of_suffix suffix (List.suffix_append first second) with
    inner | ⟨part, rfl⟩
  · exact secondFinishes todo inner
  · have partSuffix : part <:+ first := List.suffix_append_self_iff.mp suffix
    rw [waitsFor_append, List.count_append]
    exact Nat.add_le_add (firstFinishes part partSuffix)
      (secondFinishes second List.suffix_rfl)

/-- Operations that are no waits need no end. -/
theorem Finishes.of_silent {i : Fin m} {program : List (ContextOp m)}
    (silent : waitsFor i program = 0) : Finishes i program := by
  intro todo suffix
  have fewer : waitsFor i todo ≤ waitsFor i program :=
    (suffix.sublist.filterMap (opOf i)).count_le _
  omega

/-- `Context::wait` waits once for each process before it ends. -/
theorem finishes_waitOps (i : Fin m) : Finishes i (waitOps m) := by
  intro todo suffix
  rcases todo.eq_nil_or_concat' with rfl | ⟨before, last, rfl⟩
  · exact le_rfl
  · have lastEq : last = .finish := by
      have ends := suffix.getLast (by simp)
      simpa [waitOps] using ends
    have once : waitsFor i (before ++ [last]) ≤ waitsFor i (waitOps m) :=
      (suffix.sublist.filterMap (opOf i)).count_le _
    have one : waitsFor i (waitOps m) = 1 := by simp [waitsFor, waitOps_filterMap]
    rw [lastEq] at once ⊢
    simp only [List.count_append, List.count_singleton_self]
    omega

theorem finishes_roundsOps (i : Fin m) (rounds : List U32) : Finishes i (roundsOps m rounds) := by
  induction rounds with
  | nil => exact .of_silent rfl
  | cons iters rest ih =>
      have start : Finishes i (startOps m iters) := by
        apply Finishes.of_silent
        rw [waitsFor, startOps, List.filterMap_cons]
        simp [opOf, each_filterMap]
      exact (start.append (finishes_waitOps i)).append ih

theorem count_finish_roundsOps (m : Nat) (rounds : List U32) :
    (roundsOps m rounds).count .finish = rounds.length := by
  have ops (op : ParentOp) : (each m op).count .finish = 0 := by
    simp [List.count_eq_zero, each]
  have waits : ((List.finRange m).flatMap fun i =>
      [ContextOp.process i .wait, .stop]).count .finish = 0 := by
    simp [List.count_eq_zero]
  induction rounds with
  | nil => rfl
  | cons iters rest ih =>
      rw [roundsOps_cons, List.count_append, ih]
      simp [startOps, waitOps, ops, waits, Nat.add_comm]

/-- The parent is at some point of its program, and has returned from as many
waits as the program has left behind. -/
structure Accounted (rounds : List U32) (ctx : Context m) : Prop where
  suffix : ctx.todo <:+ each m .create ++ roundsOps m rounds
  waits : ctx.waits + ctx.todo.count .finish = rounds.length

theorem accounted_of_reachable {rounds : List U32} {ctx : Context m}
    (reachable : (system m rounds).Reachable ctx) : ctx.Accounted rounds := by
  refine System.Reachable.invariant (Accounted rounds) ?_ ?_ reachable
  · rintro ctx rfl
    have creates : (each m .create).count .finish = 0 := by
      simp [List.count_eq_zero, each]
    exact ⟨List.suffix_rfl, by simp [initial, creates, count_finish_roundsOps]⟩
  · rintro ctx move next _ step ⟨suffix, waits⟩
    change Context.step ctx move = some next at step
    unfold Context.step at step
    split at step
    case h_1 => -- a child
      obtain ⟨_, _, rfl⟩ := Option.map_eq_some_iff.mp step
      exact ⟨suffix, waits⟩
    case h_2 => -- the parent
      split at step
      case h_1 => contradiction
      case h_2 j op rest todo =>
        obtain ⟨⟨proc, pc⟩, _, rfl⟩ := Option.map_eq_some_iff.mp step
        rw [todo] at suffix waits
        unfold remainingOps
        split
        · exact ⟨(List.suffix_cons _ _).trans suffix, by simpa using waits⟩
        · exact ⟨suffix, waits⟩
      all_goals
        rename_i rest todo
        obtain ⟨_, rfl⟩ := setRunning_eq_some step
        rw [todo] at suffix waits
        refine ⟨(List.suffix_cons _ _).trans suffix, ?_⟩
        simp only [List.count_cons] at waits
        simpa [Nat.add_assoc, Nat.add_comm 1] using waits

/-! ## The barrier of a context -/

/-- Rounds are delivered: the values `get_iters` has returned in any child are
the counts of the first rounds, at least as many as there are waits that have
returned `Ok`; and once `Context::wait` has returned `Ok` for the `k`-th time every
child has called `get_iters` for the `k + 1`-st time. -/
theorem rounds_delivered (m : Nat) (rounds : List U32) (ctx : Context m)
    (reachable : (system m rounds).Reachable ctx) (i : Fin m) :
    (ctx.processes i).child.returns <+: rounds ∧
      ctx.waits ≤ (ctx.processes i).child.returns.length ∧
      ∀ k, 1 ≤ k → k ≤ ctx.waits → k + 1 ≤ (ctx.processes i).child.calls := by
  obtain ⟨_, handshakeReachable, rfl⟩ := (context_refines_handshake m rounds i).reachable reachable
  obtain ⟨barrier, barrierReachable, follows⟩ :=
    (handshake_refines_barrier rounds).reachable handshakeReachable
  have complete := Barrier.released_append_pending barrierReachable
  have total := congrArg List.length complete
  rw [List.length_append] at total
  obtain ⟨suffix, waits⟩ := accounted_of_reachable reachable
  have creates : Finishes i (each m .create) := .of_silent (by simp [waitsFor, each_filterMap])
  have finishes : waitsFor i ctx.todo ≤ ctx.todo.count .finish :=
    creates.append (finishes_roundsOps i rounds) ctx.todo suffix
  obtain ⟨delivered, _, inOneCall⟩ : (ctx.processes i).child.Delivered barrier :=
    follows.child.delivered
  have called : ∀ k, 1 ≤ k → k ≤ ctx.waits → k + 1 ≤ (ctx.processes i).child.calls := by
    intro k one finished
    have calls : waitsFor i ctx.todo < barrier.released.length + barrier.pending.length →
        barrier.released.length + barrier.pending.length + 1 ≤
          (ctx.processes i).child.calls + waitsFor i ctx.todo := follows.calls
    omega
  refine ⟨delivered.trans (complete ▸ List.prefix_append _ _), ?_, called⟩
  by_cases none : ctx.waits = 0
  · omega
  · have last := called ctx.waits (by omega) le_rfl
    omega

/-- One process performs one round of five iterations. -/
def oneRound : List (Move 1) :=
  let parent := Move.parent .proceed
  let parentCall := [Move.parent (.sem .run), Move.parent (.sem .run), parent]
  let child := Move.child 0 (.turn .proceed)
  let childCall := [Move.child 0 (.turn (.sem .run)), Move.child 0 (.turn (.sem .run)), child]
  let arrive := Move.child 0 .call :: childCall
  [parent] ++ arrive ++ parentCall ++ [parent, parent, parent] ++ parentCall ++ childCall ++
    [child, parent] ++ arrive ++ parentCall ++ [parent, parent]

theorem rounds_delivered_oneRound :
    ∃ ctx, (system 1 [5]).exec (initial 1 [5]) oneRound = some ctx ∧
      ((ctx.processes 0).child.returns = [5] ∧ ctx.waits = 1) ∧
      (ctx.processes 0).child.returns <+: [5] ∧
      ctx.waits ≤ (ctx.processes 0).child.returns.length ∧
        ∀ k, 1 ≤ k → k ≤ ctx.waits → k + 1 ≤ (ctx.processes 0).child.calls := by
  have begins : (system 1 [5]).init (initial 1 [5]) := rfl
  have run : (((system 1 [5]).exec (initial 1 [5]) oneRound).any fun ctx =>
      decide ((ctx.processes 0).child.returns = [5] ∧ ctx.waits = 1)) = true := by
    decide
  obtain ⟨ctx, ends, here⟩ := (Option.any_eq_true _ _).mp run
  exact ⟨ctx, ends, of_decide_eq_true here,
    rounds_delivered 1 [5] ctx ((System.Reachable.init begins).of_exec ends) 0⟩

end Schtest.Context
