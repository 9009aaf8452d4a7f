import Schtest.Transition.Core
import Mathlib.Data.List.Nodup

/-!
# Linearizable histories

A history records where the calls of an object begin and end.  It is
linearizable when the calls take effect one at a time, each between its begin
and its end.  The rule of this module asks for a point at which a call takes
effect; a call may be given several points, of which the last one counts,
provided that the others leave the object as it is.  For threads that make one
call after another, the rules on callers keep such a log along a run; what is
left to show of an object is where its calls have their points.

As in every log, the newest entry stands first, also in the order in which the
calls take effect.
-/

namespace Schtest.Transition

universe u v w x

/-- An object whose operations take effect at once, with their answers. -/
structure Object (σ : Type u) (ω : Type v) (ρ : Type w) where
  init : σ
  apply : σ → ω → ρ × σ

/-- The begin or the end of a call. -/
inductive CallEvent (κ : Type x) (ω : Type v) (ρ : Type w)
  | invoke (id : κ) (op : ω)
  | respond (id : κ) (answer : ρ)
  deriving DecidableEq, Repr

/-- A call that has taken effect. -/
structure Effected (κ : Type x) (ω : Type v) (ρ : Type w) where
  id : κ
  op : ω
  answer : ρ
  deriving DecidableEq, Repr

variable {κ : Type x} {ω : Type v} {ρ : Type w} {σ : Type u}

/-- The call `a` ends before the call `b` begins. -/
def Precedes (history : List (CallEvent κ ω ρ)) (a b : κ) : Prop :=
  ∃ answer op, [.invoke b op, .respond a answer].Sublist history

theorem Precedes.cons {history : List (CallEvent κ ω ρ)} {a b : κ}
    (precedes : Precedes history a b) (event : CallEvent κ ω ρ) :
    Precedes (event :: history) a b := by
  obtain ⟨answer, op, pair⟩ := precedes
  exact ⟨answer, op, pair.cons event⟩

/-- A call that begins now comes after those that have ended. -/
theorem precedes_of_mem {history : List (CallEvent κ ω ρ)} {a : κ} {answer : ρ}
    (responded : .respond a answer ∈ history) (b : κ) (op : ω) :
    Precedes (.invoke b op :: history) a b :=
  ⟨answer, op, (List.singleton_sublist.mpr responded).cons_cons _⟩

namespace Object

variable (object : Object σ ω ρ)

/-- The state of the object after the calls. -/
def after : List (Effected κ ω ρ) → σ
  | [] => object.init
  | call :: older => (object.apply (after older) call.op).2

/-- Every call is answered as the object answers it. -/
def Legal : List (Effected κ ω ρ) → Prop
  | [] => True
  | call :: older => (object.apply (object.after older) call.op).1 = call.answer ∧ Legal older

/-- The calls of the history could have been made one at a time in this order. -/
structure Linearizes (history : List (CallEvent κ ω ρ)) (order : List (Effected κ ω ρ)) :
    Prop where
  once : (order.map Effected.id).Nodup
  legal : object.Legal order
  /-- Only calls that have begun take effect. -/
  begun : ∀ call ∈ order, .invoke call.id call.op ∈ history
  /-- Every call that has ended took effect, with the answer it gave. -/
  ended : ∀ id answer, .respond id answer ∈ history → ∃ op, ⟨id, op, answer⟩ ∈ order
  /-- Calls that do not overlap take effect in the order in which they were made. -/
  realTime : ∀ earlier ∈ order, ∀ later ∈ order,
    Precedes history earlier.id later.id → [later, earlier].Sublist order

/-- Whenever the operation gets this answer, it leaves the object as it is. -/
def Quiet (call : Effected κ ω ρ) : Prop :=
  ∀ state, (object.apply state call.op).1 = call.answer →
    (object.apply state call.op).2 = state

/-- Without some of its quiet calls, an order is as legal and ends in the same state. -/
theorem legal_filter (keep : Effected κ ω ρ → Bool) {order : List (Effected κ ω ρ)}
    (legal : object.Legal order)
    (quiet : ∀ call ∈ order, keep call = false → object.Quiet call) :
    object.Legal (order.filter keep) ∧ object.after (order.filter keep) = object.after order := by
  induction order with
  | nil => exact ⟨trivial, rfl⟩
  | cons call older ih =>
      obtain ⟨answered, legalOlder⟩ := legal
      obtain ⟨quietCall, quietOlder⟩ := List.forall_mem_cons.mp quiet
      obtain ⟨legalKept, same⟩ := ih legalOlder quietOlder
      cases kept : keep call with
      | true =>
          rw [List.filter_cons_of_pos kept]
          constructor
          · exact ⟨by rw [same]; exact answered, legalKept⟩
          · rw [after, after, same]
      | false =>
          rw [List.filter_cons_of_neg (by simp [kept])]
          constructor
          · exact legalKept
          · rw [same, after, quietCall kept _ answered]

end Object

/-! ## Marks -/

/-- An entry of a log in which the points of the calls are marked. -/
inductive Mark (κ : Type x) (ω : Type v) (ρ : Type w)
  | event (happened : CallEvent κ ω ρ)
  | point (call : Effected κ ω ρ)

namespace Mark

/-- The log without the points. -/
def history (marks : List (Mark κ ω ρ)) : List (CallEvent κ ω ρ) :=
  marks.filterMap fun
    | .event happened => some happened
    | .point _ => none

@[simp]
theorem history_event (happened : CallEvent κ ω ρ) (older : List (Mark κ ω ρ)) :
    history (.event happened :: older) = happened :: history older :=
  rfl

@[simp]
theorem history_point (call : Effected κ ω ρ) (older : List (Mark κ ω ρ)) :
    history (.point call :: older) = history older :=
  rfl

variable [DecidableEq κ]

/-- The calls in the order of their last points. -/
def order : List (Mark κ ω ρ) → List (Effected κ ω ρ)
  | [] => []
  | .event _ :: older => order older
  | .point call :: older => call :: (order older).filter (fun other => decide (other.id ≠ call.id))

theorem mem_order_point {call other : Effected κ ω ρ} {older : List (Mark κ ω ρ)} :
    other ∈ order (.point call :: older) ↔
      other = call ∨ other ∈ order older ∧ other.id ≠ call.id := by
  simp [order]

theorem mem_order_point_of_ne {call other : Effected κ ω ρ} {older : List (Mark κ ω ρ)}
    (distinct : other.id ≠ call.id) :
    other ∈ order (.point call :: older) ↔ other ∈ order older := by
  rw [mem_order_point]
  constructor
  · rintro (rfl | ⟨has, _⟩)
    · exact absurd rfl distinct
    · exact has
  · exact fun has => Or.inr ⟨has, distinct⟩

/-- A call is given a point, or nothing is marked. -/
def AddsPoint (id : κ) (op : ω) (marks marksNext : List (Mark κ ω ρ)) : Prop :=
  marksNext = marks ∨ ∃ answer, marksNext = .point ⟨id, op, answer⟩ :: marks

omit [DecidableEq κ] in
theorem AddsPoint.history_eq {id : κ} {op : ω} {marks marksNext : List (Mark κ ω ρ)}
    (addsPoint : AddsPoint id op marks marksNext) : history marksNext = history marks := by
  rcases addsPoint with rfl | ⟨answer, rfl⟩
  · rfl
  · rfl

/-- The points of other calls stay. -/
theorem AddsPoint.mem_order_iff {id : κ} {op : ω} {marks marksNext : List (Mark κ ω ρ)}
    (addsPoint : AddsPoint id op marks marksNext) {point : Effected κ ω ρ} (other : point.id ≠ id) :
    point ∈ order marksNext ↔ point ∈ order marks := by
  rcases addsPoint with rfl | ⟨answer, rfl⟩
  · rfl
  · exact mem_order_point_of_ne other

/-- A call begins once, has its points before it ends, and ends with the answer
of its last point. -/
inductive WellMarked (object : Object σ ω ρ) : List (Mark κ ω ρ) → Prop
  | nil : WellMarked object []
  | invoke {id op older} : WellMarked object older →
      (∀ op, .invoke id op ∉ history older) →
      WellMarked object (.event (.invoke id op) :: older)
  | point {id op answer older} : WellMarked object older →
      .invoke id op ∈ history older →
      (∀ answer, .respond id answer ∉ history older) →
      (∀ call ∈ order older, call.id = id → object.Quiet call) →
      (object.apply (object.after (order older)) op).1 = answer →
      WellMarked object (.point ⟨id, op, answer⟩ :: older)
  | respond {id op answer older} : WellMarked object older →
      ⟨id, op, answer⟩ ∈ order older →
      WellMarked object (.event (.respond id answer) :: older)

namespace WellMarked

variable {object : Object σ ω ρ} {marks : List (Mark κ ω ρ)}

theorem begun (marked : WellMarked object marks) :
    ∀ call ∈ order marks, .invoke call.id call.op ∈ history marks := by
  induction marked with
  | nil => exact fun _ has => absurd has List.not_mem_nil
  | invoke _ _ ih => exact fun call has => List.mem_cons_of_mem _ (ih call has)
  | respond _ _ ih => exact fun call has => List.mem_cons_of_mem _ (ih call has)
  | point _ invoked _ _ _ ih =>
      intro call has
      rcases mem_order_point.mp has with rfl | ⟨old, _⟩
      · exact invoked
      · exact ih call old

theorem once (marked : WellMarked object marks) :
    ((order marks).map Effected.id).Nodup := by
  induction marked with
  | nil => exact List.nodup_nil
  | invoke _ _ ih => exact ih
  | respond _ _ ih => exact ih
  | point _ _ _ _ _ ih =>
      rw [order, List.map_cons, List.nodup_cons]
      constructor
      · simp
      · exact ih.sublist (List.filter_sublist.map _)

/-- The order holds one entry of a call. -/
theorem eq_of_id_eq (marked : WellMarked object marks) {call other : Effected κ ω ρ}
    (has : call ∈ order marks) (hasOther : other ∈ order marks) (same : call.id = other.id) :
    call = other :=
  List.inj_on_of_nodup_map marked.once has hasOther same

/-- The points that no longer count have changed nothing. -/
theorem legal (marked : WellMarked object marks) : object.Legal (order marks) := by
  induction marked with
  | nil => trivial
  | invoke _ _ ih => exact ih
  | respond _ _ ih => exact ih
  | @point id op answer older _ _ _ quiet answered ih =>
      have kept := object.legal_filter (fun other => decide (other.id ≠ id)) ih
        fun call has dropped => quiet call has (by simpa using dropped)
      constructor
      · rw [kept.2]
        exact answered
      · exact kept.1

theorem after_point (marked : WellMarked object marks) {id : κ} {op : ω} {answer : ρ}
    (quiet : ∀ call ∈ order marks, call.id = id → object.Quiet call) :
    object.after (order (.point ⟨id, op, answer⟩ :: marks)) =
      (object.apply (object.after (order marks)) op).2 := by
  have kept := object.legal_filter (fun other => decide (other.id ≠ id)) marked.legal
    fun call has dropped => quiet call has (by simpa using dropped)
  rw [order, Object.after, kept.2]

/-- A point at which the object answers so. -/
theorem mark (marked : WellMarked object marks) {id : κ} {op : ω} {answer : ρ} {state : σ}
    (invoked : .invoke id op ∈ history marks)
    (unended : ∀ answer, .respond id answer ∉ history marks)
    (quiet : ∀ call ∈ order marks, call.id = id → object.Quiet call)
    (applied : object.apply (object.after (order marks)) op = (answer, state)) :
    WellMarked object (.point ⟨id, op, answer⟩ :: marks) ∧
      object.after (order (.point ⟨id, op, answer⟩ :: marks)) = state := by
  constructor
  · exact .point marked invoked unended quiet (by rw [applied])
  · rw [marked.after_point quiet, applied]

/-- A call that has ended keeps its point. -/
theorem ended (marked : WellMarked object marks) {id : κ} {answer : ρ}
    (responded : .respond id answer ∈ history marks) :
    ∃ op, ⟨id, op, answer⟩ ∈ order marks := by
  induction marked with
  | nil => exact absurd responded List.not_mem_nil
  | invoke _ _ ih =>
      rw [history_event, List.mem_cons] at responded
      exact ih (responded.resolve_left nofun)
  | respond _ has ih =>
      rw [history_event, List.mem_cons] at responded
      rcases responded with same | old
      · cases same
        exact ⟨_, has⟩
      · exact ih old
  | @point other _ _ _ _ _ unanswered _ _ ih =>
      obtain ⟨op, has⟩ := ih responded
      have distinct : id ≠ other := by
        rintro rfl
        exact unanswered answer responded
      exact ⟨op, (mem_order_point_of_ne distinct).mpr has⟩

theorem realTime (marked : WellMarked object marks) {earlier later : Effected κ ω ρ}
    (hasEarlier : earlier ∈ order marks) (hasLater : later ∈ order marks)
    (precedes : Precedes (history marks) earlier.id later.id) :
    [later, earlier].Sublist (order marks) := by
  induction marked generalizing earlier later with
  | nil => exact absurd hasEarlier List.not_mem_nil
  | @invoke id op older before fresh ih =>
      obtain ⟨answer, op', pair⟩ := precedes
      rw [history_event, List.sublist_cons_iff] at pair
      apply ih hasEarlier hasLater
      rcases pair with old | ⟨rest, same, _⟩
      · exact ⟨answer, op', old⟩
      · -- a call that only begins here has no point yet
        cases same
        exact absurd (before.begun later hasLater) (fresh _)
  | respond _ _ ih =>
      obtain ⟨answer, op', pair⟩ := precedes
      rw [history_event, List.sublist_cons_iff] at pair
      apply ih hasEarlier hasLater
      rcases pair with old | ⟨rest, same, _⟩
      · exact ⟨answer, op', old⟩
      · cases same
  | @point id op answer older _ _ unanswered _ _ ih =>
      -- the earlier call has ended, so this is not a point of it
      have distinct : earlier.id ≠ id := by
        rintro rfl
        obtain ⟨given, _, pair⟩ := precedes
        exact unanswered given (pair.subset (by simp))
      have old := (mem_order_point_of_ne distinct).mp hasEarlier
      rcases mem_order_point.mp hasLater with rfl | ⟨oldLater, distinctLater⟩
      · apply List.Sublist.cons_cons
        rw [List.singleton_sublist, List.mem_filter]
        exact ⟨old, by simpa using distinct⟩
      · have kept := (ih old oldLater precedes).filter fun other => decide (other.id ≠ id)
        rw [List.filter_cons_of_pos (by simpa using distinctLater),
          List.filter_cons_of_pos (by simpa using distinct)] at kept
        exact kept.cons _

/-- A log whose calls have points shows that its history is linearizable. -/
theorem linearizes (marked : WellMarked object marks) :
    object.Linearizes (history marks) (order marks) where
  once := marked.once
  legal := marked.legal
  begun := marked.begun
  ended _ _ := marked.ended
  realTime _ hasEarlier _ hasLater := marked.realTime hasEarlier hasLater

end WellMarked

end Mark

/-! ## Callers -/

section Callers

/-- A call begins with its first step. -/
def beginCall [DecidableEq κ] [DecidableEq ω] [DecidableEq ρ] (id : κ) (op : ω)
    (history : List (CallEvent κ ω ρ)) : List (CallEvent κ ω ρ) :=
  if .invoke id op ∈ history then history else .invoke id op :: history

section Begin

variable [DecidableEq κ] [DecidableEq ω] [DecidableEq ρ] {id : κ} {op : ω}
  {history : List (CallEvent κ ω ρ)}

theorem mem_beginCall_of_mem {event : CallEvent κ ω ρ} (has : event ∈ history) :
    event ∈ beginCall id op history := by
  unfold beginCall
  split
  · exact has
  · exact List.mem_cons_of_mem _ has

/-- No answer is added to the history where a call begins. -/
theorem respond_mem_beginCall {other : κ} {answer : ρ} :
    .respond other answer ∈ beginCall id op history ↔ .respond other answer ∈ history := by
  unfold beginCall
  split <;> simp

end Begin

/-- A call ends with the step that gives its answer. -/
def endCall (id : κ) (answer : Option ρ) (history : List (CallEvent κ ω ρ)) :
    List (CallEvent κ ω ρ) :=
  match answer with
  | some answer => .respond id answer :: history
  | none => history

theorem mem_endCall {id : κ} {answer : Option ρ} {history : List (CallEvent κ ω ρ)}
    {event : CallEvent κ ω ρ} :
    event ∈ endCall id answer history ↔
      (∃ given, answer = some given ∧ event = .respond id given) ∨ event ∈ history := by
  unfold endCall
  cases answer with
  | none => simp
  | some given => simp

/-- Only an answer is added to the history where a call ends. -/
theorem invoke_mem_endCall {id other : κ} {answer : Option ρ} {op : ω}
    {history : List (CallEvent κ ω ρ)} :
    .invoke other op ∈ endCall id answer history ↔ .invoke other op ∈ history := by
  rw [mem_endCall]
  simp

/-- A thread that makes one call after another: how many have returned, the call in progress
or the next one, and its answer once it has one. -/
structure Caller (ω : Type v) (ρ : Type w) where
  index : Nat
  op : Option ω
  answer : Option ρ

open Mark

variable {ι : Type x} [DecidableEq ι]

/-- A log of the calls that the threads have made. -/
structure Attended (object : Object σ ω ρ) (callers : ι → Caller ω ρ)
    (marks : List (Mark (ι × Nat) ω ρ)) : Prop where
  wellMarked : WellMarked object marks
  past : ∀ tid, ∀ index < (callers tid).index,
    ∃ answer, .respond (tid, index) answer ∈ history marks
  future : ∀ tid index op, .invoke (tid, index) op ∈ history marks → index ≤ (callers tid).index
  answered : ∀ tid answer, (callers tid).answer = some answer →
    .respond (tid, (callers tid).index) answer ∈ history marks
  unended : ∀ tid, (callers tid).answer = none →
    ∀ answer, .respond (tid, (callers tid).index) answer ∉ history marks
  named : ∀ tid op, (callers tid).op = some op →
    ∀ other, .invoke (tid, (callers tid).index) other ∈ history marks → other = op
  sequential : ∀ tid index op, .invoke (tid, index + 1) op ∈ history marks →
    Precedes (history marks) (tid, index) (tid, index + 1)

namespace Attended

variable {object : Object σ ω ρ} {callers : ι → Caller ω ρ} {marks : List (Mark (ι × Nat) ω ρ)}

/-- Before the first step nothing is marked. -/
theorem nil (started : ∀ tid, (callers tid).index = 0 ∧ (callers tid).answer = none) :
    Attended object callers [] := by
  constructor
  case wellMarked => exact .nil
  case past =>
    intro tid index older
    rw [(started tid).1] at older
    exact absurd older (Nat.not_lt_zero _)
  case future => exact fun _ _ _ has => absurd has List.not_mem_nil
  case answered =>
    intro tid answer given
    rw [(started tid).2] at given
    contradiction
  case unended => exact fun _ _ _ => List.not_mem_nil
  case named => exact fun _ _ _ _ has => absurd has List.not_mem_nil
  case sequential => exact fun _ _ _ has => absurd has List.not_mem_nil

/-- The first step of a call begins it. -/
theorem begin [DecidableEq ω] [DecidableEq ρ] (attended : Attended object callers marks)
    {tid : ι} {op : ω} (making : (callers tid).op = some op)
    (running : (callers tid).answer = none) :
    ∃ marksNext, history marksNext = beginCall (tid, (callers tid).index) op (history marks) ∧
      order marksNext = order marks ∧ Attended object callers marksNext ∧
      .invoke (tid, (callers tid).index) op ∈ history marksNext := by
  by_cases known : .invoke (tid, (callers tid).index) op ∈ history marks
  · exact ⟨marks, (if_pos known).symm, rfl, attended, known⟩
  · refine ⟨.event (.invoke (tid, (callers tid).index) op) :: marks,
      (if_neg known).symm, rfl, ?_, List.mem_cons_self⟩
    constructor
    case wellMarked =>
      apply attended.wellMarked.invoke
      intro other has
      rw [attended.named tid op making other has] at has
      exact known has
    case past =>
      intro other index older
      obtain ⟨answer, has⟩ := attended.past other index older
      exact ⟨answer, List.mem_cons_of_mem _ has⟩
    case future =>
      intro other index first has
      rcases List.mem_cons.mp has with head | old
      · cases head
        exact Nat.le_refl _
      · exact attended.future other index first old
    case answered =>
      exact fun other answer given => List.mem_cons_of_mem _ (attended.answered other answer given)
    case unended =>
      intro other unanswered answer has
      rcases List.mem_cons.mp has with head | old
      · contradiction
      · exact attended.unended other unanswered answer old
    case named =>
      intro other first firstEq second has
      rcases List.mem_cons.mp has with head | old
      · injection head with idEq opEq
        rw [(Prod.mk.inj idEq).1, making] at firstEq
        rw [opEq]
        exact Option.some.inj firstEq
      · exact attended.named other first firstEq second old
    case sequential =>
      intro other index first has
      rcases List.mem_cons.mp has with head | old
      · injection head with idEq
        obtain ⟨rfl, indexEq⟩ := Prod.mk.inj idEq
        obtain ⟨answer, responded⟩ := attended.past other index (by omega)
        rw [history_event, ← indexEq]
        exact precedes_of_mem responded _ _
      · exact (attended.sequential other index first old).cons _

/-- A call in progress may be given a point. -/
theorem point (attended : Attended object callers marks) {tid : ι} {op : ω} {answer : ρ} {state : σ}
    (running : (callers tid).answer = none)
    (invoked : .invoke (tid, (callers tid).index) op ∈ history marks)
    (quiet : ∀ call ∈ order marks, call.id = (tid, (callers tid).index) → object.Quiet call)
    (applied : object.apply (object.after (order marks)) op = (answer, state)) :
    Attended object callers (.point ⟨(tid, (callers tid).index), op, answer⟩ :: marks) ∧
      object.after (order (.point ⟨(tid, (callers tid).index), op, answer⟩ :: marks)) = state :=
  have marked := attended.wellMarked.mark invoked (attended.unended tid running) quiet applied
  ⟨⟨marked.1, attended.past, attended.future, attended.answered, attended.unended, attended.named,
    attended.sequential⟩, marked.2⟩

/-- A call ends with the answer of its point. -/
theorem finish (attended : Attended object callers marks) {tid : ι} {op : ω} (answer : Option ρ)
    (running : (callers tid).answer = none)
    (pointed : ∀ given, answer = some given →
      ⟨(tid, (callers tid).index), op, given⟩ ∈ order marks) :
    ∃ marksEnd, history marksEnd = endCall (tid, (callers tid).index) answer (history marks) ∧
      order marksEnd = order marks ∧
      Attended object
        (Function.update callers tid ⟨(callers tid).index, (callers tid).op, answer⟩) marksEnd := by
  cases answer with
  | none =>
      refine ⟨marks, rfl, rfl, ?_⟩
      rw [← running, Function.update_eq_self]
      exact attended
  | some given =>
      refine ⟨.event (.respond (tid, (callers tid).index) given) :: marks, rfl, rfl, ?_⟩
      have sameIndex : ∀ other, (Function.update callers tid
          ⟨(callers tid).index, (callers tid).op, some given⟩ other).index =
          (callers other).index := by
        intro other
        by_cases same : other = tid
        · rw [same, Function.update_self]
        · rw [Function.update_of_ne same]
      have sameOp : ∀ other, (Function.update callers tid
          ⟨(callers tid).index, (callers tid).op, some given⟩ other).op = (callers other).op := by
        intro other
        by_cases same : other = tid
        · rw [same, Function.update_self]
        · rw [Function.update_of_ne same]
      have begun : ∀ {id op}, .invoke id op ∈
          history (.event (.respond (tid, (callers tid).index) given) :: marks) →
          .invoke id op ∈ history marks :=
        fun has => (List.mem_cons.mp has).resolve_left nofun
      constructor
      case wellMarked => exact attended.wellMarked.respond (pointed given rfl)
      case past =>
        intro other index older
        rw [sameIndex] at older
        obtain ⟨answer, has⟩ := attended.past other index older
        exact ⟨answer, List.mem_cons_of_mem _ has⟩
      case future =>
        intro other index first has
        rw [sameIndex]
        exact attended.future other index first (begun has)
      case answered =>
        intro other answer givenEq
        rw [sameIndex]
        by_cases same : other = tid
        · subst same
          rw [Function.update_self] at givenEq
          cases givenEq
          exact List.mem_cons_self
        · rw [Function.update_of_ne same] at givenEq
          exact List.mem_cons_of_mem _ (attended.answered other answer givenEq)
      case unended =>
        intro other unanswered answer has
        by_cases same : other = tid
        · rw [same, Function.update_self] at unanswered
          contradiction
        · rw [Function.update_of_ne same] at unanswered
          rw [sameIndex] at has
          rcases List.mem_cons.mp has with head | old
          · injection head with idEq
            exact same (Prod.mk.inj idEq).1
          · exact attended.unended other unanswered answer old
      case named =>
        intro other first firstEq second has
        rw [sameOp] at firstEq
        rw [sameIndex] at has
        exact attended.named other first firstEq second (begun has)
      case sequential =>
        intro other index first has
        exact (attended.sequential other index first (begun has)).cons _

/-- A call that has not begun has no point. -/
theorem unmarked_next (attended : Attended object callers marks) (tid : ι) :
    ∀ point ∈ order marks, point.id ≠ (tid, (callers tid).index + 1) := by
  intro point has isNext
  have invoked := attended.wellMarked.begun point has
  rw [isNext] at invoked
  exact absurd (attended.future _ _ _ invoked) (Nat.not_succ_le_self _)

/-- A call that has returned gives way to the next, which has no mark. -/
theorem retire (attended : Attended object callers marks) {tid : ι} {answer : ρ}
    (returned : (callers tid).answer = some answer) (next : Option ω) :
    Attended object (Function.update callers tid ⟨(callers tid).index + 1, next, none⟩) marks := by
  have fresh : ∀ op, .invoke (tid, (callers tid).index + 1) op ∉ history marks :=
    fun op has => absurd (attended.future _ _ op has) (Nat.not_succ_le_self _)
  constructor
  case wellMarked => exact attended.wellMarked
  case sequential => exact attended.sequential
  case past =>
    intro other index older
    by_cases same : other = tid
    · subst same
      rw [Function.update_self] at older
      rcases Nat.lt_succ_iff_lt_or_eq.mp older with before | rfl
      · exact attended.past other index before
      · exact ⟨answer, attended.answered other answer returned⟩
    · rw [Function.update_of_ne same] at older
      exact attended.past other index older
  case future =>
    intro other index op has
    by_cases same : other = tid
    · subst same
      rw [Function.update_self]
      exact Nat.le_succ_of_le (attended.future other index op has)
    · rw [Function.update_of_ne same]
      exact attended.future other index op has
  case answered =>
    intro other given givenEq
    by_cases same : other = tid
    · rw [same, Function.update_self] at givenEq
      contradiction
    · rw [Function.update_of_ne same] at givenEq ⊢
      exact attended.answered other given givenEq
  case unended =>
    intro other unanswered given has
    by_cases same : other = tid
    · subst same
      rw [Function.update_self] at has
      obtain ⟨op, point⟩ := attended.wellMarked.ended has
      exact fresh op (attended.wellMarked.begun _ point)
    · rw [Function.update_of_ne same] at unanswered has
      exact attended.unended other unanswered given has
  case named =>
    intro other first firstEq second has
    by_cases same : other = tid
    · subst same
      rw [Function.update_self] at has
      exact absurd has (fresh second)
    · rw [Function.update_of_ne same] at firstEq has
      exact attended.named other first firstEq second has

end Attended

end Callers

/-! ## Recorded runs -/

namespace System

universe y z

variable {α : Type y} {η : Type z}

/-- The system together with a record that its steps extend and never read. -/
def recorded (sys : System σ α) (start : η) (record : σ → α → σ → η → η) :
    System (σ × η) α where
  init state := sys.init state.1 ∧ state.2 = start
  step state action :=
    (sys.step state.1 action).map fun next => (next, record state.1 action next state.2)

variable {sys : System σ α} {start : η} {record : σ → α → σ → η → η}

theorem recorded_step_eq_some_iff {state : σ × η} {action : α} {next : σ × η} :
    (sys.recorded start record).step state action = some next ↔
      sys.step state.1 action = some next.1 ∧ next.2 = record state.1 action next.1 state.2 := by
  rw [recorded, Option.map_eq_some_iff]
  constructor
  · rintro ⟨next, step, rfl⟩
    exact ⟨step, rfl⟩
  · rintro ⟨step, kept⟩
    exact ⟨next.1, step, Prod.ext rfl kept.symm⟩

/-- A recorded run is a run. -/
theorem Reachable.of_recorded {state : σ × η}
    (reachable : (sys.recorded start record).Reachable state) : sys.Reachable state.1 := by
  apply reachable.invariant (fun state => sys.Reachable state.1)
  · exact fun state initial => .init initial.1
  · exact fun state action next _ step before =>
      before.step (recorded_step_eq_some_iff.mp step).1

end System

end Schtest.Transition
