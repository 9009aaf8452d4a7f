import Schtest.Collections.Update
import Schtest.Transition.Core
import Mathlib.Data.List.Range
import Mathlib.Data.List.Nodup

/-!
# Handles of a shared vector

A `SharedVec` points at its elements and knows how many there are.  A clone
points at the same elements, with a count of its own from then on.  `push`
writes behind the own count, and the destructor of every handle drops as many
elements as that handle knows of.
-/

namespace Schtest.Shared

open Schtest.Collections Schtest.Transition

universe u

/-! ## One handle -/

/-- The elements behind the pointer, which all clones have in common. -/
abbrev Elements (T : Type u) :=
  Nat → Option T

/-- A `SharedVec`: its own length and capacity; clones share the elements. -/
structure SharedVec where
  len : Nat
  capacity : Nat
  deriving DecidableEq, Repr

namespace SharedVec

variable {T : Type u}

/-- `SharedVec::with_capacity`. -/
def withCapacity (capacity : Nat) : SharedVec :=
  ⟨0, capacity⟩

/-- `push(value)`, `none` where it returns an error. -/
def push (vec : SharedVec) (elements : Elements T) (value : T) : Option (SharedVec × Elements T) :=
  if vec.len = vec.capacity then none
  else some ({ vec with len := vec.len + 1 }, Function.update elements vec.len (some value))

/-- `vec[index] = value`, with the element that is dropped; `none` where the
index is out of bounds. -/
def setIndex (vec : SharedVec) (elements : Elements T) (index : Nat) (value : T) :
    Option (Option T × Elements T) :=
  if index ≥ vec.len then none
  else some (elements index, Function.update elements index (some value))

/-- `SharedVec::clone`: the length is copied. -/
def clone (vec : SharedVec) : SharedVec :=
  ⟨vec.len, vec.capacity⟩

/-- The elements on which `drop` calls `drop_in_place`. -/
def drop (vec : SharedVec) (elements : Elements T) : List T :=
  (List.range vec.len).filterMap elements

theorem mem_drop {vec : SharedVec} {elements : Elements T} {value : T} :
    value ∈ vec.drop elements ↔ ∃ slot < vec.len, elements slot = some value := by
  simp [drop]

end SharedVec

/-! ## Any number of handles -/

/-- The handles of one vector.  The values that were ever passed to it, the
handle that pushed an element, whether a handle that reached the slot was dropped
since the last write, the values that were dropped, and those that a `push` has
overwritten under the eyes of the handle that pushed them, are recorded for the
proofs. -/
structure Sharing (T : Type u) where
  elements : Elements T
  handle : Nat → Option SharedVec
  created : Nat
  used : List T
  owner : Nat → Option Nat
  spent : Nat → Bool
  dropped : List T
  lost : List (Option T)

namespace Sharing

/-- What is done to one of the vectors. -/
inductive Action (T : Type u)
  | push (id : Nat) (value : T)
  | clone (id : Nat)
  | write (id index : Nat) (value : T)
  | drop (id : Nat)
  deriving DecidableEq, Repr

variable {T : Type u}

/-- The handle is alive and has an element in this slot. -/
def reads (state : Sharing T) (id slot : Nat) : Bool :=
  (state.handle id).any fun vec => slot < vec.len

/-- Another handle has pushed the element in this slot, and can still read it. -/
def pushedByOther (state : Sharing T) (id slot : Nat) : Bool :=
  (state.owner slot).any fun other => other ≠ id && state.reads other slot

variable [DecidableEq T]

/-- One operation through one handle, with a value that is distinguishable from
all earlier ones. -/
def step (state : Sharing T) : Action T → Option (Sharing T)
  | .push id value =>
      if value ∈ state.used then none
      else
        (state.handle id).map fun vec =>
          match vec.push state.elements value with
          | none =>
              -- the argument is dropped with the error
              { state with used := value :: state.used, dropped := value :: state.dropped }
          | some (vecNext, elements) =>
              { state with
                elements := elements
                handle := Function.update state.handle id (some vecNext)
                used := value :: state.used
                owner := Function.update state.owner vec.len (some id)
                spent := Function.update state.spent vec.len false
                lost :=
                  if state.pushedByOther id vec.len then state.elements vec.len :: state.lost
                  else state.lost }
  | .clone id =>
      (state.handle id).map fun vec =>
        { state with
          handle := Function.update state.handle state.created (some vec.clone)
          created := state.created + 1 }
  | .write id index value =>
      if value ∈ state.used then none
      else
        (state.handle id).bind fun vec =>
          (vec.setIndex state.elements index value).map fun (old, elements) =>
            { state with
              elements := elements
              used := value :: state.used
              owner := Function.update state.owner index none
              spent := Function.update state.spent index false
              dropped := old.toList ++ state.dropped }
  | .drop id =>
      (state.handle id).map fun vec =>
        { state with
          handle := Function.update state.handle id none
          spent := fun slot => state.spent slot || decide (slot < vec.len)
          dropped := vec.drop state.elements ++ state.dropped }

/-- One empty handle. -/
def initial (capacity : Nat) : Sharing T where
  elements _ := none
  handle := Function.update (fun _ => none) 0 (some (.withCapacity capacity))
  created := 1
  used := []
  owner _ := none
  spent _ := false
  dropped := []
  lost := []

/-- All sequences of operations on the clones of one vector. -/
def system (T : Type u) [DecidableEq T] (capacity : Nat) : System (Sharing T) (Action T) where
  init state := state = initial capacity
  step := step

/-- No value is dropped twice, and none is overwritten under the eyes of the
handle that pushed it. -/
def Intact (state : Sharing T) : Prop :=
  state.dropped.Nodup ∧ state.lost = []

/-- A `push` that finds room goes through a handle than which no other one is
longer; an index write or a `drop` only drops elements that were written after
the last `drop` of a handle that reached them. -/
def Undisturbed (state : Sharing T) : Action T → Prop
  | .push id _ =>
      ∀ vec ∈ state.handle id, vec.len ≠ vec.capacity →
        ∀ other < state.created, other ≠ id → state.reads other vec.len = false
  | .clone _ => True
  | .write _ index _ => state.spent index = false
  | .drop id => ∀ vec ∈ state.handle id, ∀ slot < vec.len, state.spent slot = false

/-! ## The ledger of an undisturbed run -/

/-- Every element is a value of its own, which was dropped if and only if its
slot is spent. -/
structure Tidy (state : Sharing T) : Prop where
  known : ∀ id vec, state.handle id = some vec → id < state.created
  filled : ∀ id vec, state.handle id = some vec → ∀ slot < vec.len,
    ∃ value, state.elements slot = some value
  stored : ∀ slot value, state.elements slot = some value →
    value ∈ state.used ∧ (value ∈ state.dropped ↔ state.spent slot = true)
  distinct : ∀ slot slot' value, state.elements slot = some value →
    state.elements slot' = some value → slot = slot'
  seen : ∀ value ∈ state.dropped, value ∈ state.used
  once : state.dropped.Nodup
  kept : state.lost = []

variable {state next : Sharing T}

omit [DecidableEq T] in
theorem tidy_initial (capacity : Nat) : (initial capacity : Sharing T).Tidy := by
  have only {id : Nat} {vec : SharedVec}
      (handle : (initial capacity : Sharing T).handle id = some vec) :
      id = 0 ∧ vec = .withCapacity capacity := by
    have handle : Function.update (fun _ => none) 0 (some (SharedVec.withCapacity capacity)) id =
        some vec := handle
    rcases update_some_eq_some_iff.mp handle with ⟨here, same⟩ | ⟨_, elsewhere⟩
    · exact ⟨here, same.symm⟩
    · contradiction
  constructor
  case known =>
    intro id vec handle
    obtain ⟨rfl, _⟩ := only handle
    exact Nat.zero_lt_one
  case filled =>
    intro id vec handle slot inside
    obtain ⟨_, rfl⟩ := only handle
    exact absurd inside (Nat.not_lt_zero _)
  case stored => intro slot value element; contradiction
  case distinct => intro slot slot' value element; contradiction
  case seen => intro value member; contradiction
  case once => exact List.nodup_nil
  case kept => rfl

omit [DecidableEq T] in
/-- A new value is stored in a slot, and its element may be dropped. -/
theorem Tidy.store {slot : Nat} {value : T} {handle : Nat → Option SharedVec}
    {owner : Nat → Option Nat} (tidy : state.Tidy) (old : List T) (new : value ∉ state.used)
    (known : ∀ id vec, handle id = some vec → id < state.created)
    (filled : ∀ id vec, handle id = some vec → ∀ place < vec.len,
      place = slot ∨ ∃ value, state.elements place = some value)
    (dropped : ∀ value ∈ old, state.elements slot = some value ∧ state.spent slot = false)
    (single : old.Nodup) :
    Tidy { state with
      elements := Function.update state.elements slot (some value)
      handle := handle
      used := value :: state.used
      owner := owner
      spent := Function.update state.spent slot false
      dropped := old ++ state.dropped } := by
  have unused {other : T} (member : other ∈ old) : other ∈ state.used :=
    (tidy.stored slot other (dropped other member).1).1
  constructor
  case known => exact known
  case filled =>
    intro id vec here place inside
    by_cases same : place = slot
    · exact ⟨value, by rw [same]; exact Function.update_self _ _ _⟩
    · obtain ⟨element, stored⟩ := (filled id vec here place inside).resolve_left same
      exact ⟨element, update_some_eq_some_iff.mpr (Or.inr ⟨same, stored⟩)⟩
  case stored =>
    intro place element here
    rcases update_some_eq_some_iff.mp here with ⟨rfl, rfl⟩ | ⟨elsewhere, here⟩
    · refine ⟨List.mem_cons_self, iff_of_false ?_ (by simp)⟩
      intro member
      rcases List.mem_append.mp member with member | member
      · exact new (unused member)
      · exact new (tidy.seen value member)
    · obtain ⟨used, spent⟩ := tidy.stored place element here
      refine ⟨List.mem_cons_of_mem _ used, ?_⟩
      dsimp only
      rw [Function.update_of_ne elsewhere, List.mem_append, ← spent, or_iff_right]
      intro member
      exact elsewhere (tidy.distinct place slot element here (dropped element member).1)
  case distinct =>
    intro place place' element here there
    rcases update_some_eq_some_iff.mp here with ⟨rfl, rfl⟩ | ⟨_, before⟩
    · rcases update_some_eq_some_iff.mp there with ⟨rfl, _⟩ | ⟨_, before⟩
      · rfl
      · exact absurd (tidy.stored place' value before).1 new
    · rcases update_some_eq_some_iff.mp there with ⟨rfl, rfl⟩ | ⟨_, before'⟩
      · exact absurd (tidy.stored place value before).1 new
      · exact tidy.distinct place place' element before before'
  case seen =>
    intro other member
    rcases List.mem_append.mp member with member | member
    · exact List.mem_cons_of_mem _ (unused member)
    · exact List.mem_cons_of_mem _ (tidy.seen other member)
  case once =>
    refine List.nodup_append.mpr ⟨single, tidy.once, ?_⟩
    rintro other member _ earlier rfl
    obtain ⟨element, unspent⟩ := dropped other member
    rw [(tidy.stored slot other element).2, unspent] at earlier
    contradiction
  case kept => exact tidy.kept

/-- A write replaces an element of a handle by a new value. -/
theorem exists_of_write {id index : Nat} {value : T}
    (step : state.step (.write id index value) = some next) :
    value ∉ state.used ∧ ∃ vec, state.handle id = some vec ∧ index < vec.len ∧ next = { state with
      elements := Function.update state.elements index (some value)
      used := value :: state.used
      owner := Function.update state.owner index none
      spent := Function.update state.spent index false
      dropped := (state.elements index).toList ++ state.dropped } := by
  simp only [Sharing.step] at step
  split at step
  · contradiction
  · rename_i new
    obtain ⟨vec, here, step⟩ := Option.bind_eq_some_iff.mp step
    obtain ⟨⟨old, elements⟩, written, rfl⟩ := Option.map_eq_some_iff.mp step
    simp only [SharedVec.setIndex] at written
    split at written
    · contradiction
    · rename_i inside
      cases written
      exact ⟨new, vec, here, by omega, rfl⟩

theorem Tidy.push {id : Nat} {value : T} (tidy : state.Tidy)
    (allowed : Undisturbed state (.push id value))
    (step : state.step (.push id value) = some next) : next.Tidy := by
  simp only [Sharing.step] at step
  split at step
  · contradiction
  · rename_i new
    obtain ⟨vec, here, result⟩ := Option.map_eq_some_iff.mp step
    subst result
    by_cases full : vec.len = vec.capacity
    · simp only [SharedVec.push, if_pos full]
      constructor
      case known => exact tidy.known
      case filled => exact tidy.filled
      case stored =>
        intro slot element stored
        obtain ⟨used, spent⟩ := tidy.stored slot element stored
        refine ⟨List.mem_cons_of_mem _ used, ?_⟩
        rw [← spent, List.mem_cons, or_iff_right]
        rintro rfl
        exact new used
      case distinct => exact tidy.distinct
      case seen =>
        intro other member
        rcases List.mem_cons.mp member with rfl | member
        · exact List.mem_cons_self
        · exact List.mem_cons_of_mem _ (tidy.seen other member)
      case once => exact List.nodup_cons.mpr ⟨fun member => new (tidy.seen value member), tidy.once⟩
      case kept => exact tidy.kept
    · have unread : state.pushedByOther id vec.len = false := by
        rw [pushedByOther, Option.any_eq_false]
        intro other _
        by_contra reads
        simp only [Bool.not_eq_false, Bool.and_eq_true, decide_eq_true_eq] at reads
        obtain ⟨distinct, reads⟩ := reads
        obtain ⟨longer, alive, _⟩ := (Option.any_eq_true _ _).mp reads
        rw [allowed vec here full other (tidy.known other longer alive) distinct] at reads
        contradiction
      simp only [SharedVec.push, if_neg full, unread, Bool.false_eq_true, if_false]
      apply tidy.store [] new
      · intro id' vec' alive
        rcases update_some_eq_some_iff.mp alive with ⟨rfl, _⟩ | ⟨_, alive⟩
        · exact tidy.known id' vec here
        · exact tidy.known id' vec' alive
      · intro id' vec' alive place inside
        rcases update_some_eq_some_iff.mp alive with ⟨rfl, rfl⟩ | ⟨_, alive⟩
        · rcases Nat.lt_succ_iff_lt_or_eq.mp inside with before | same
          · exact Or.inr (tidy.filled id' vec here place before)
          · exact Or.inl same
        · exact Or.inr (tidy.filled id' vec' alive place inside)
      · simp
      · exact List.nodup_nil

theorem Tidy.clone {id : Nat} (tidy : state.Tidy) (step : state.step (.clone id) = some next) :
    next.Tidy := by
  obtain ⟨vec, here, rfl⟩ := Option.map_eq_some_iff.mp step
  refine ⟨?_, ?_, tidy.stored, tidy.distinct, tidy.seen, tidy.once, tidy.kept⟩
  · intro id' vec' alive
    rcases update_some_eq_some_iff.mp alive with ⟨rfl, _⟩ | ⟨_, alive⟩
    · exact Nat.lt_succ_self _
    · exact Nat.lt_succ_of_lt (tidy.known id' vec' alive)
  · intro id' vec' alive
    rcases update_some_eq_some_iff.mp alive with ⟨_, rfl⟩ | ⟨_, alive⟩
    · exact tidy.filled id vec here
    · exact tidy.filled id' vec' alive

theorem Tidy.write {id index : Nat} {value : T} (tidy : state.Tidy)
    (allowed : state.spent index = false)
    (step : state.step (.write id index value) = some next) : next.Tidy := by
  obtain ⟨new, vec, here, _, rfl⟩ := exists_of_write step
  apply tidy.store _ new tidy.known
  · exact fun id' vec' alive place inside => Or.inr (tidy.filled id' vec' alive place inside)
  · intro other member
    exact ⟨Option.mem_toList.mp member, allowed⟩
  · cases state.elements index <;> simp

theorem Tidy.drop {id : Nat} (tidy : state.Tidy) (allowed : Undisturbed state (.drop id))
    (step : state.step (.drop id) = some next) : next.Tidy := by
  obtain ⟨vec, here, rfl⟩ := Option.map_eq_some_iff.mp step
  constructor
  case known => exact fun id' vec' alive => tidy.known id' vec' (update_none_eq_some_iff.mp alive).2
  case filled =>
    exact fun id' vec' alive => tidy.filled id' vec' (update_none_eq_some_iff.mp alive).2
  case stored =>
    intro slot value stored
    obtain ⟨used, spent⟩ := tidy.stored slot value stored
    refine ⟨used, ?_⟩
    rw [List.mem_append, SharedVec.mem_drop, spent, Bool.or_eq_true, decide_eq_true_eq, or_comm]
    refine or_congr_right ⟨?_, fun inside => ⟨slot, inside, stored⟩⟩
    rintro ⟨slot', inside, same⟩
    rwa [tidy.distinct slot slot' value stored same]
  case distinct => exact tidy.distinct
  case seen =>
    intro value member
    rcases List.mem_append.mp member with member | member
    · obtain ⟨slot, _, stored⟩ := SharedVec.mem_drop.mp member
      exact (tidy.stored slot value stored).1
    · exact tidy.seen value member
  case once =>
    refine List.nodup_append.mpr ⟨?_, tidy.once, ?_⟩
    · exact List.nodup_range.filterMap fun slot slot' value here there =>
        tidy.distinct slot slot' value here there
    · rintro value member _ earlier rfl
      obtain ⟨slot, inside, stored⟩ := SharedVec.mem_drop.mp member
      rw [(tidy.stored slot value stored).2, allowed vec here slot inside] at earlier
      contradiction
  case kept => exact tidy.kept

theorem Tidy.of_step {action : Action T} (tidy : state.Tidy) (allowed : Undisturbed state action)
    (step : state.step action = some next) : next.Tidy := by
  cases action with
  | push id value => exact tidy.push allowed step
  | clone id => exact tidy.clone step
  | write id index value => exact tidy.write allowed step
  | drop id => exact tidy.drop allowed step

theorem tidy_of_reachable {capacity : Nat}
    (reachable : (system T capacity).ReachableUnder Undisturbed state) : state.Tidy := by
  refine System.ReachableUnder.invariant Tidy ?_ ?_ reachable
  · rintro _ rfl
    exact tidy_initial capacity
  · intro state action next _ allowed step tidy
    exact tidy.of_step allowed step

/-! ## What the condition leaves out -/

/-- In every run whose steps are undisturbed, no value is dropped twice and no
handle overwrites an element under the eyes of the handle that pushed it. -/
theorem intact_of_undisturbed {capacity : Nat}
    (reachable : (system T capacity).ReachableUnder Undisturbed state) : state.Intact :=
  ⟨(tidy_of_reachable reachable).once, (tidy_of_reachable reachable).kept⟩

/-- The slot of a clone that was dropped is written again. -/
def reusedSlot : List (Action Nat) :=
  [.clone 0, .push 1 10, .drop 1, .push 0 20, .clone 0, .write 2 0 30, .drop 2]

instance (state : Sharing T) (action : Action T) : Decidable (Undisturbed state action) :=
  match action with
  | .push id _ => inferInstanceAs (Decidable (∀ vec ∈ state.handle id,
      vec.len ≠ vec.capacity → ∀ other < state.created, other ≠ id →
        state.reads other vec.len = false))
  | .clone _ => inferInstanceAs (Decidable True)
  | .write _ index _ => inferInstanceAs (Decidable (state.spent index = false))
  | .drop id => inferInstanceAs (Decidable (∀ vec ∈ state.handle id, ∀ slot < vec.len,
      state.spent slot = false))

theorem intact_of_undisturbed_reusedSlot :
    ∃ state : Sharing Nat, state.dropped = [30, 20, 10] ∧ state.Intact := by
  have run : ((system Nat 1).execUnder Undisturbed (initial 1) reusedSlot).any
      (fun state => state.dropped == [30, 20, 10]) = true := by decide
  obtain ⟨state, ends, dropped⟩ := (Option.any_eq_true _ _).mp run
  have start : (system Nat 1).ReachableUnder Undisturbed (initial 1) := .init rfl
  exact ⟨state, eq_of_beq dropped, intact_of_undisturbed (start.of_execUnder ends)⟩

/-- Both handles drop the element that one of them pushed before it was cloned;
and a handle and its clone push into the same slot. -/
theorem dropped_twice_and_overwritten :
    (∃ state, (system Nat 1).Reachable state ∧ state.dropped = [10, 10] ∧ ¬ state.Intact) ∧
      ∃ state, (system Nat 1).Reachable state ∧ state.lost = [some 10] ∧ ¬ state.Intact := by
  constructor
  · have run : ((system Nat 1).exec (initial 1) [.push 0 10, .clone 0, .drop 0, .drop 1]).any
        (fun state => state.dropped == [10, 10]) = true := by decide
    obtain ⟨state, reachable, here⟩ := System.exists_reachable_of_exec _ _ rfl run
    have dropped : state.dropped = [10, 10] := eq_of_beq here
    exact ⟨state, reachable, dropped, by simp [Intact, dropped]⟩
  · have run : ((system Nat 1).exec (initial 1) [.clone 0, .push 0 10, .push 1 20]).any
        (fun state => state.lost == [some 10]) = true := by decide
    obtain ⟨state, reachable, here⟩ := System.exists_reachable_of_exec _ _ rfl run
    have lost : state.lost = [some 10] := eq_of_beq here
    exact ⟨state, reachable, lost, by simp [Intact, lost]⟩

/-- The first disturbed step of a run drops a value for the second time, or
overwrites an element that another handle can read. -/
theorem dropped_or_overwritten {capacity : Nat} {action : Action T}
    (reachable : (system T capacity).ReachableUnder Undisturbed state)
    (disturbed : ¬ Undisturbed state action) (step : state.step action = some next) :
    ¬ next.dropped.Nodup ∨ ∃ other slot, next.reads other slot = true ∧
      state.reads other slot = true ∧ next.elements slot ≠ state.elements slot := by
  have tidy := tidy_of_reachable reachable
  cases action with
  | push id value =>
      simp only [Undisturbed, not_forall] at disturbed
      obtain ⟨vec, here, full, other, _, distinct, longer⟩ := disturbed
      rw [Bool.not_eq_false] at longer
      simp only [Sharing.step] at step
      split at step
      · contradiction
      · rename_i new
        rw [Option.mem_def] at here
        rw [here, Option.map_some, Option.some.injEq] at step
        subst step
        obtain ⟨vec', alive, inside⟩ := (Option.any_eq_true _ _).mp longer
        obtain ⟨element, stored⟩ := tidy.filled other vec' alive vec.len (of_decide_eq_true inside)
        refine Or.inr ⟨other, vec.len, ?_, longer, ?_⟩
        · simpa [SharedVec.push, full, reads, distinct] using longer
        · simp only [SharedVec.push, if_neg full, Function.update_self, stored, Ne,
            Option.some.injEq]
          rintro rfl
          exact new (tidy.stored _ value stored).1
  | clone id => exact absurd trivial disturbed
  | write id index value =>
      simp only [Undisturbed, Bool.not_eq_false] at disturbed
      obtain ⟨_, vec, here, inside, rfl⟩ := exists_of_write step
      obtain ⟨element, stored⟩ := tidy.filled id vec here index inside
      left
      have earlier := (tidy.stored index element stored).2.mpr disturbed
      simp [stored, earlier]
  | drop id =>
      simp only [Undisturbed, not_forall] at disturbed
      obtain ⟨vec, here, slot, inside, spent⟩ := disturbed
      rw [Bool.not_eq_false] at spent
      simp only [Sharing.step] at step
      rw [Option.mem_def] at here
      rw [here, Option.map_some, Option.some.injEq] at step
      subst step
      obtain ⟨element, stored⟩ := tidy.filled id vec here slot inside
      left
      intro once
      have twice := (List.nodup_append.mp once).2.2 element
        (SharedVec.mem_drop.mpr ⟨slot, inside, stored⟩) element
        ((tidy.stored slot element stored).2.mpr spent)
      exact twice rfl

end Sharing

end Schtest.Shared
