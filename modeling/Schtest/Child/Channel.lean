import Schtest.Child.Delivery

/-!
# The notification pipe has a capacity

A child that reports an error writes it with one blocking `write`, which is
suspended while the pipe is full.  The parent reads after it has reaped the
child, so nobody empties the pipe while the child writes.
-/

namespace Schtest.Child

open Schtest.Transition

/-! ## The two parties -/

/-- Where the child of `run` is. -/
inductive WriterPc
  | running
  /-- Its function has returned; these bytes are not in the pipe yet. -/
  | writing (pending : List UInt8)
  | exited
  deriving DecidableEq, Repr

/-- Where the parent is in `wait(true, false)`. -/
inductive ReaderPc
  | idle
  | waitpid
  /-- The child is reaped: reading up to the end of file. -/
  | read (buffer : List UInt8)
  | returned (result : Result)
  deriving DecidableEq

/-- The two sides of a notification and the bytes between them. -/
structure Channel where
  child : WriterPc
  pipe : List UInt8
  parent : ReaderPc

namespace Channel

/-- The steps of the two sides. -/
inductive Action
  | returns
  /-- The `write` of the child moves this many bytes. -/
  | write (n : Nat)
  | exit
  | wait
  | waitpid
  /-- The parent reads this many bytes, or finds the end of file. -/
  | read (n : Nat)
  deriving DecidableEq, Repr

/-- One step, for a child whose function returns `result`. -/
def step (capacity : Nat) (result : Result) (channel : Channel) : Action → Option Channel
  | .returns =>
      match channel.child with
      | .running => some { channel with child := .writing (encode result) }
      | _ => none
  | .write n =>
      match channel.child with
      | .writing pending =>
          if 1 ≤ n ∧ n ≤ pending.length ∧ channel.pipe.length + n ≤ capacity then
            some { channel with
              child := .writing (pending.drop n)
              pipe := channel.pipe ++ pending.take n }
          else none
      | _ => none
  | .exit =>
      match channel.child with
      | .writing [] => some { channel with child := .exited }
      | _ => none
  | .wait =>
      match channel.parent with
      | .idle => some { channel with parent := .waitpid }
      | _ => none
  | .waitpid =>
      match channel.child, channel.parent with
      | .exited, .waitpid => some { channel with parent := .read [] }
      | _, _ => none
  | .read n =>
      match channel.parent with
      | .read buffer =>
          if channel.pipe = [] then
            let result := concludeStatus (.exited 0 : Status Nat) buffer
            some { channel with parent := .returned result }
          else if 1 ≤ n ∧ n ≤ 1024 ∧ n ≤ channel.pipe.length then
            some { channel with
              pipe := channel.pipe.drop n
              parent := .read (buffer ++ channel.pipe.take n) }
          else none
      | _ => none

/-- All runs of the child and its parent. -/
def system (capacity : Nat) (result : Result) : System Channel Action where
  init channel := channel = ⟨.running, [], .idle⟩
  step := step capacity result

/-- The child is suspended in its `write`: the pipe is full. -/
def ChildSuspended (capacity : Nat) (channel : Channel) : Prop :=
  match channel.child with
  | .writing pending => pending ≠ [] ∧ capacity ≤ channel.pipe.length
  | _ => False

/-- The parent is suspended in `waitpid`: the child has not exited. -/
def ParentSuspended (channel : Channel) : Prop :=
  channel.parent = .waitpid ∧ channel.child ≠ .exited

instance (capacity : Nat) (channel : Channel) : Decidable (channel.ChildSuspended capacity) := by
  unfold ChildSuspended
  split <;> infer_instance

instance (channel : Channel) : Decidable channel.ParentSuspended :=
  inferInstanceAs (Decidable (_ ∧ _))

variable {capacity : Nat} {result : Result} {channel next : Channel} {action : Action}

/-- Nobody goes on from there. -/
theorem no_step_of_suspended (child : channel.ChildSuspended capacity)
    (parent : channel.ParentSuspended) (action : Action) :
    channel.step capacity result action = none := by
  obtain ⟨childPc, pipe, parentPc⟩ := channel
  obtain ⟨waits, _⟩ := parent
  cases waits
  cases childPc with
  | running => exact child.elim
  | exited => exact child.elim
  | writing pending =>
      obtain ⟨some_, full⟩ := child
      cases action with
      | write n =>
          dsimp only at full
          simp only [step]
          rw [if_neg (by omega)]
      | exit =>
          cases pending with
          | nil => contradiction
          | cons byte rest => rfl
      | returns => rfl
      | wait => rfl
      | waitpid => rfl
      | read n => rfl

/-! ## Where the bytes are -/

/-- What the child has written is in the pipe until the parent has reaped it,
which it cannot do before the child has exited. -/
def Written (result : Result) (channel : Channel) : Prop :=
  match channel.child, channel.parent with
  | .running, .idle | .running, .waitpid => channel.pipe = []
  | .writing pending, .idle | .writing pending, .waitpid => channel.pipe ++ pending = encode result
  | .exited, .idle | .exited, .waitpid => channel.pipe = encode result
  | .exited, _ => True
  | _, _ => False

/-- The parent reads nothing before the child has exited. -/
theorem Written.waits {child : WriterPc} {pipe : List UInt8} {parent : ReaderPc}
    (written : Written result ⟨child, pipe, parent⟩) (alive : child ≠ .exited) :
    parent = .idle ∨ parent = .waitpid := by
  cases parent with
  | idle => exact Or.inl rfl
  | waitpid => exact Or.inr rfl
  | read buffer => cases child <;> simp_all [Written]
  | returned concluded => cases child <;> simp_all [Written]

/-- The parent and its child where the child writes its message at once: it runs
until it exits. -/
def family (result : Result) (dead : Bool) (channel : Channel) : Family Unit Nat where
  procs _ :=
    match channel.child, channel.parent with
    | .exited, .idle | .exited, .waitpid =>
        ⟨.zombie (.exited 0), channel.pipe, some (result, encode result)⟩
    | .exited, _ => ⟨.reaped, channel.pipe, some (result, encode result)⟩
    | _, _ => ⟨.running, [], none⟩
  results _ :=
    match channel.parent with
    | .returned concluded => some concluded
    | _ => none
  parent :=
    match channel.parent with
    | .waitpid => .wait () (.wait true false) dead 0
    | .read buffer => .read () (.wait true false) dead (.exited 0) buffer
    | _ => .idle
  sent := []
  log :=
    match channel.parent with
    | .returned concluded => [⟨(), .wait true false, dead, .wait (some concluded)⟩]
    | _ => []

theorem update_unit {β : Type} (f : Unit → β) (value : β) :
    Function.update f () value = fun _ => value :=
  Function.update_eq_const_of_subsingleton () value f

/-- Before the child exits, the family does not see how far it has come. -/
theorem family_eq_of_alive (dead : Bool) {child child' : WriterPc} {pipe pipe' : List UInt8}
    {parent : ReaderPc} (alive : child ≠ .exited) (alive' : child' ≠ .exited) :
    family result dead ⟨child', pipe', parent⟩ = family result dead ⟨child, pipe, parent⟩ := by
  cases child with
  | exited => contradiction
  | _ =>
      cases child' with
      | exited => contradiction
      | _ => rfl

/-- The writes of the child stutter, and every other step is one of the family. -/
theorem family_of_step {dead : Bool} (written : channel.Written result)
    (step : channel.step capacity result action = some next) :
    next.Written result ∧
      (next.family result dead = channel.family result dead ∨
        ∃ dead' action', (channel.family result dead).step (fun _ => true) action' =
          some (next.family result dead')) := by
  obtain ⟨child, pipe, parent⟩ := channel
  cases action with
  | returns =>
      cases child with
      | running =>
          cases step
          refine ⟨?_, Or.inl (family_eq_of_alive dead (by simp) (by simp))⟩
          rcases written.waits (by simp) with rfl | rfl <;> simp_all [Written]
      | writing pending => contradiction
      | exited => contradiction
  | write n =>
      cases child with
      | writing pending =>
          simp only [Channel.step] at step
          split at step
          · cases step
            refine ⟨?_, Or.inl (family_eq_of_alive dead (by simp) (by simp))⟩
            rcases written.waits (by simp) with rfl | rfl <;> simp_all [Written]
          · contradiction
      | running => contradiction
      | exited => contradiction
  | exit =>
      cases child with
      | writing pending =>
          cases pending with
          | nil =>
              cases step
              have all : pipe = encode result := by
                rcases written.waits (by simp) with rfl | rfl <;> simpa [Written] using written
              have exits : (family result dead ⟨.writing [], pipe, parent⟩).step (fun _ => true)
                  (.returned () result (encode result)) =
                    some (family result dead ⟨.exited, pipe, parent⟩) := by
                rcases written.waits (by simp) with rfl | rfl <;>
                  simp [Family.step, Family.terminate, family, all, update_unit]
              refine ⟨?_, Or.inr ⟨dead, .returned () result (encode result), exits⟩⟩
              rcases written.waits (by simp) with rfl | rfl <;> exact all
          | cons byte rest => contradiction
      | running => contradiction
      | exited => contradiction
  | wait =>
      cases parent with
      | idle =>
          cases step
          have same : Written result ⟨child, pipe, .waitpid⟩ := by
            cases child <;> exact written
          refine ⟨same, Or.inr ⟨decide (child = .exited), .call () (.wait true false), ?_⟩⟩
          cases child <;> rfl
      | waitpid => contradiction
      | read buffer => contradiction
      | returned concluded => contradiction
  | waitpid =>
      cases child with
      | exited =>
          cases parent with
          | waitpid =>
              cases step
              refine ⟨trivial, Or.inr ⟨dead, .waitpid (), ?_⟩⟩
              simp [Family.step, family, waitpid, reap, update_unit, Call.all]
          | idle => contradiction
          | read buffer => contradiction
          | returned concluded => contradiction
      | running => contradiction
      | writing pending => contradiction
  | read n =>
      cases parent with
      | read buffer =>
          cases child with
          | exited =>
              simp only [Channel.step] at step
              split at step
              · rename_i endOfFile
                cases step
                refine ⟨trivial, Or.inr ⟨dead, .read n, ?_⟩⟩
                simp [Family.step, family, endOfFile, Family.finish, Family.reply, Family.cache,
                  Call.reply, update_unit]
              · rename_i more
                split at step
                · rename_i bounds
                  cases step
                  refine ⟨trivial, Or.inr ⟨dead, .read n, ?_⟩⟩
                  simp [Family.step, family, more, bounds, update_unit]
                · contradiction
          | running => exact written.elim
          | writing pending => exact written.elim
      | idle => contradiction
      | waitpid => contradiction
      | returned concluded => contradiction

/-- Byte by byte the pipe refines the family in which a child writes at once. -/
theorem refinement (capacity : Nat) (result : Result) :
    Refinement (system capacity result) (familySystem Unit Nat fun _ => true)
      fun channel spec => channel.Written result ∧ ∃ dead, spec = channel.family result dead where
  init := by
    rintro _ rfl
    exact ⟨.initial, rfl, rfl, false, rfl⟩
  step := by
    rintro channel action next _ _ step ⟨written, dead, rfl⟩
    obtain ⟨writtenNext, same | ⟨dead', action', specStep⟩⟩ := family_of_step written step
    · exact Or.inl ⟨writtenNext, dead, same.symm⟩
    · exact Or.inr ⟨action', _, specStep, writtenNext, dead', rfl⟩

/-- The parent concludes from all that the child wanted to write. -/
theorem concluded_of_returned (reachable : (system capacity result).Reachable channel)
    {concluded : Result} (returned : channel.parent = .returned concluded) :
    concluded = conclude (some 0) (none : Option Nat) (encode result) := by
  obtain ⟨_, specReachable, written, dead, rfl⟩ := (refinement capacity result).reachable reachable
  have exited : channel.child = .exited := by
    cases child : channel.child <;> simp_all [Written]
  have delivered : ((channel.family result dead).procs ()).Delivered result := by
    simp [family, exited, returned, Proc.Delivered]
  have member : (⟨(), .wait true false, dead, .wait (some concluded)⟩ : Entry Unit Nat) ∈
      (channel.family result dead).log := by
    simp [family, returned]
  exact (intact_of_reachable specReachable () result delivered).logged member rfl rfl

/-! ## Both parties suspended -/

theorem written_of_reachable (reachable : (system capacity result).Reachable channel) :
    channel.Written result := by
  obtain ⟨_, _, written, _⟩ := (refinement capacity result).reachable reachable
  exact written

/-- While the parent waits, the child fills the pipe byte by byte. -/
theorem reachable_writing {n : Nat} (room : n ≤ capacity) (bound : n ≤ (encode result).length) :
    (system capacity result).Reachable
      ⟨.writing ((encode result).drop n), (encode result).take n, .waitpid⟩ := by
  induction n with
  | zero =>
      have run : (system capacity result).exec ⟨.running, [], .idle⟩ [.wait, .returns] =
          some ⟨.writing (encode result), [], .waitpid⟩ := rfl
      exact (System.Reachable.init rfl).of_exec run
  | succ n ih =>
      have length : ((encode result).take n).length = n := List.length_take_of_le (by omega)
      have write : (system capacity result).step
          ⟨.writing ((encode result).drop n), (encode result).take n, .waitpid⟩ (.write 1) =
            some ⟨.writing ((encode result).drop (n + 1)), (encode result).take (n + 1),
              .waitpid⟩ := by
        simp only [system, step, List.length_drop, length]
        rw [if_pos (by omega), List.drop_drop, ← List.take_add]
      exact (ih (by omega) (by omega)).step write

/-- Parent and child are never both suspended if and only if the message fits
into the pipe. -/
theorem never_both_suspended_iff (capacity : Nat) (result : Result) :
    (∀ channel, (system capacity result).Reachable channel →
      ¬ (channel.ChildSuspended capacity ∧ channel.ParentSuspended)) ↔
      (encode result).length ≤ capacity := by
  constructor
  case mp =>
    intro never
    by_contra long
    have filled : (system capacity result).Reachable ⟨.writing ((encode result).drop capacity),
        (encode result).take capacity, .waitpid⟩ :=
      reachable_writing le_rfl (by omega)
    apply never _ filled
    refine ⟨⟨?_, ?_⟩, rfl, by simp⟩
    · rw [Ne, List.drop_eq_nil_iff]
      exact long
    · rw [List.length_take_of_le (by omega)]
  case mpr =>
    rintro fits ⟨child, pipe, parent⟩ reachable ⟨childSuspended, waits, _⟩
    have written := written_of_reachable reachable
    cases waits
    cases child with
    | running => exact childSuspended
    | exited => exact childSuspended
    | writing pending =>
        obtain ⟨some_, full⟩ := childSuspended
        have total : pipe.length + pending.length = (encode result).length := by
          rw [← written, List.length_append]
        have positive := List.length_pos_iff.mpr some_
        dsimp only at full
        omega

/-- A message of ten bytes and a pipe of four: the child waits for the parent to
read, and the parent for the child to exit. -/
theorem both_suspended_reachable :
    ∃ channel, (system 4 (.error "Test error")).Reachable channel ∧
      channel.ChildSuspended 4 ∧ channel.ParentSuspended ∧
      ∀ action, channel.step 4 (.error "Test error") action = none := by
  have run : ((system 4 (.error "Test error")).exec ⟨.running, [], .idle⟩
      [.wait, .returns, .write 4]).any
        (fun channel => channel.ChildSuspended 4 ∧ channel.ParentSuspended) = true := by
    decide
  obtain ⟨channel, reachable, suspended⟩ := System.exists_reachable_of_exec _ _ rfl run
  obtain ⟨child, parent⟩ := of_decide_eq_true suspended
  exact ⟨channel, reachable, child, parent, no_step_of_suspended child parent⟩

end Channel

end Schtest.Child
