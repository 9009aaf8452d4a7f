import Mathlib.Algebra.GroupWithZero.Nat
import Mathlib.Logic.Function.Basic

/-!
# Sets of small numbers in words

A set of numbers below `words * width` is kept as the bits of an array of words.
A set is determined by its members, and the union of a list of sets has the
members of all of them.
-/

namespace Schtest.Collections

universe u

/-- An array of words of some bits each. -/
abbrev WordSet (words width : Nat) :=
  Fin words → BitVec width

namespace WordSet

variable {words width : Nat}

/-- The set without members. -/
def empty : WordSet words width :=
  fun _ => BitVec.ofNat width 0

/-- The bit of a number.  There is none beyond the array. -/
def get (set : WordSet words width) (number : Nat) : Bool :=
  if inside : number / width < words then
    (set ⟨number / width, inside⟩).getLsbD (number % width)
  else false

/-- Set the bit of a number.  A word beyond the array cannot be written. -/
def insert? (set : WordSet words width) (number : Nat) : Option (WordSet words width) :=
  if inside : number / width < words then
    some (Function.update set ⟨number / width, inside⟩
      (set ⟨number / width, inside⟩ ||| BitVec.ofNat width 1 <<< (number % width)))
  else none

/-- OR the words of a set into another one. -/
def union (dest src : WordSet words width) : WordSet words width :=
  fun word => dest word ||| src word

@[simp]
theorem get_empty (number : Nat) : (empty : WordSet words width).get number = false := by
  simp [get, empty]

@[simp]
theorem get_union (dest src : WordSet words width) (number : Nat) :
    (dest.union src).get number = (dest.get number || src.get number) := by
  unfold get
  split
  · simp [union]
  · rfl

/-- A number in range has a word and a bit. -/
theorem div_lt {number : Nat} (inRange : number < words * width) : number / width < words := by
  rw [Nat.mul_comm] at inRange
  exact Nat.div_lt_of_lt_mul inRange

theorem width_pos {number : Nat} (inRange : number < words * width) : 0 < width :=
  Nat.pos_of_mul_pos_left (Nat.lt_of_le_of_lt (Nat.zero_le number) inRange)

/-- Setting a bit adds one number. -/
theorem insert?_spec (set : WordSet words width) {number : Nat}
    (inRange : number < words * width) :
    ∃ next, set.insert? number = some next ∧
      ∀ other, next.get other = (decide (other = number) || set.get other) := by
  have inside := div_lt inRange
  have positive := width_pos inRange
  have low := Nat.mod_lt number positive
  rw [insert?, dif_pos inside]
  constructor
  constructor
  · rfl
  · intro other
    unfold get
    by_cases sameWord : other / width = number / width
    · have otherLow := Nat.mod_lt other positive
      have sameBit : other % width = number % width ↔ other = number := by
        constructor
        · intro same
          rw [← Nat.div_add_mod other width, sameWord, same, Nat.div_add_mod]
        · intro same
          rw [same]
      simp only [sameWord, inside, dif_pos, Function.update_self, BitVec.getLsbD_or]
      by_cases same : other = number
      · simp [same, low]
      · have different : ¬ other % width = number % width := sameBit.not.mpr same
        simp only [same, decide_false, Bool.false_or, BitVec.getLsbD_shiftLeft,
          BitVec.getLsbD_one]
        grind
    · have different : other ≠ number := fun same => sameWord (congrArg (· / width) same)
      simp only [different, decide_false, Bool.false_or]
      split
      · rw [Function.update_of_ne]
        intro same
        exact sameWord (congrArg Fin.val same)
      · rfl

/-! ## The members of a set -/

/-- The bits of a set are some numbers. -/
def Represents (set : WordSet words width) (members : Nat → Prop) : Prop :=
  ∀ number < words * width, set.get number = true ↔ members number

theorem represents_empty : (empty : WordSet words width).Represents fun _ => False := by
  intro number _
  simp

theorem Represents.congr {set : WordSet words width} {members others : Nat → Prop}
    (represents : set.Represents members)
    (same : ∀ number < words * width, members number ↔ others number) :
    set.Represents others := by
  intro number inRange
  rw [represents number inRange, same number inRange]

theorem Represents.union {dest src : WordSet words width} {members others : Nat → Prop}
    (first : dest.Represents members) (second : src.Represents others) :
    (dest.union src).Represents fun number => members number ∨ others number := by
  intro number inRange
  rw [get_union, Bool.or_eq_true, first number inRange, second number inRange]

/-- A set is determined by its members. -/
theorem Represents.unique {first second : WordSet words width} {members : Nat → Prop}
    (left : first.Represents members) (right : second.Represents members) : first = second := by
  funext word
  apply BitVec.eq_of_getLsbD_eq
  intro bit low
  have number : (word * width + bit) / width = word := by
    rw [Nat.mul_comm, Nat.mul_add_div (by omega), Nat.div_eq_of_lt low, Nat.add_zero]
  have position : (word * width + bit) % width = bit := by
    rw [Nat.mul_comm, Nat.mul_add_mod, Nat.mod_eq_of_lt low]
  have inRange : word * width + bit < words * width := by
    calc
      word * width + bit < word * width + width := Nat.add_lt_add_left low _
      _ = (word + 1) * width := (Nat.succ_mul _ _).symm
      _ ≤ words * width := Nat.mul_le_mul_right _ word.isLt
  have same : first.get (word * width + bit) = second.get (word * width + bit) :=
    Bool.eq_iff_iff.mpr ((left _ inRange).trans (right _ inRange).symm)
  simpa [get, number, position] using same

/-! ## The union of a list -/

variable {α : Type u}

/-- The sets of some parts, OR-ed one after the other into an empty set. -/
def unionAll (part : α → Option (WordSet words width)) (parts : List α) :
    Option (WordSet words width) :=
  parts.foldlM (fun set item => (part item).map set.union) empty

/-- The union of the sets of some parts has the members of all of them. -/
theorem unionAll_represents {part : α → Option (WordSet words width)}
    {members : α → Nat → Prop} {parts : List α}
    (represented : ∀ item ∈ parts, ∃ set, part item = some set ∧ set.Represents (members item)) :
    ∃ set, unionAll part parts = some set ∧
      set.Represents fun number => ∃ item ∈ parts, members item number := by
  suffices general : ∀ (start : WordSet words width) (already : Nat → Prop),
      start.Represents already →
        ∃ set, parts.foldlM (fun set item => (part item).map set.union) start = some set ∧
          set.Represents fun number => already number ∨ ∃ item ∈ parts, members item number by
    obtain ⟨set, result, represents⟩ := general empty _ represents_empty
    exact ⟨set, result, represents.congr fun number _ => by simp⟩
  induction parts with
  | nil =>
      intro start already represents
      exact ⟨start, rfl, represents.congr fun number _ => by simp⟩
  | cons item rest inductionHypothesis =>
      intro start already represents
      obtain ⟨set, itemSet, itemRepresents⟩ := represented item List.mem_cons_self
      obtain ⟨union, result, unionRepresents⟩ :=
        inductionHypothesis (fun other member => represented other (List.mem_cons_of_mem _ member))
          (start.union set) _ (represents.union itemRepresents)
      constructor
      constructor
      · rw [List.foldlM_cons, itemSet]
        exact result
      · exact unionRepresents.congr fun number _ => by simp [or_assoc]

end WordSet

end Schtest.Collections
