import Schtest.Process.Barrier

/-!
# A semaphore with two users

One thread produces on a semaphore of capacity one and another consumes from it,
and either may sleep.  The `WAITER` bit serves both.  They are never in the futex
queue together, and whoever is in the queue is announced by the bit, at the
amount that it waits on, or is about to be woken by the other.
-/

namespace Schtest.Semaphore

universe u

namespace Op

/-- The operation of the other side. -/
def other : Op → Op
  | .consume => .produce
  | .produce => .consume

/-- The amount of a semaphore of capacity one on which the operation waits. -/
def refusal : Op → U32
  | .consume => 0
  | .produce => 1

theorem eq_other_of_ne {op op' : Op} (different : op' ≠ op) : op' = op.other := by
  cases op <;> cases op' <;> simp_all [other]

@[simp]
theorem other_ne (op : Op) : op.other ≠ op := by
  cases op <;> simp [other]

@[simp]
theorem other_other (op : Op) : op.other.other = op := by
  cases op <;> rfl

theorem refusal_other_ne (op : Op) : op.other.refusal ≠ op.refusal := by
  cases op <;> decide

/-- What is refused on capacity one. -/
theorem eq_refusal_of_refused {op : Op} {amount : U32} (token : amount = 0 ∨ amount = 1)
    (refused : op.admits 1 1 amount = false) : amount = op.refusal := by
  rcases token with rfl | rfl <;> cases op <;> simp_all [admits, refusal]

end Op

variable {S R : Nat} {ι : Type u} [DecidableEq ι]

/-- The queue of a semaphore whose operations are used by one thread each, in
these stages of their calls. -/
structure Duplex (sem : Semaphore S R ι) (user : Op → ι) (stage : Op → Option Stage) : Prop where
  few : sem.queue.length ≤ 1
  asleep : ∀ tid ∈ sem.queue, ∃ op, tid = user op ∧ stage op = some .asleep
  covered : ∀ op, user op ∈ sem.queue →
    (hasWaiter sem.count = true ∧ amountOf sem.count = op.refusal) ∨
      stage op.other = some .waking
  flagged : hasWaiter sem.count = true →
    ∃ op, stage op = some .trying ∨ stage op = some .asleep

namespace Duplex

variable {sem semNext : Semaphore S R ι} {user : Op → ι} {stage stage' : Op → Option Stage}

omit [DecidableEq ι] in
/-- Only trying, sleeping and waking users matter. -/
theorem mono (duplex : Duplex sem user stage)
    (trying : ∀ op, stage op = some .trying → stage' op = some .trying)
    (asleep : ∀ op, stage op = some .asleep → stage' op = some .asleep)
    (waking : ∀ op, stage op = some .waking → stage' op = some .waking) :
    Duplex sem user stage' where
  few := duplex.few
  asleep := by
    intro tid queued
    obtain ⟨op, rfl, sleeps⟩ := duplex.asleep tid queued
    exact ⟨op, rfl, asleep op sleeps⟩
  covered := fun op queued => (duplex.covered op queued).imp_right (waking op.other)
  flagged := by
    intro flag
    obtain ⟨op, here⟩ := duplex.flagged flag
    exact ⟨op, here.imp (trying op) (asleep op)⟩

omit [DecidableEq ι] in
/-- A user in the queue is asleep. -/
theorem asleep_of_mem (duplex : Duplex sem user stage) (users : Function.Injective user) {op : Op}
    (queued : user op ∈ sem.queue) : stage op = some .asleep := by
  obtain ⟨_, same, sleeps⟩ := duplex.asleep _ queued
  rwa [users same]

omit [DecidableEq ι] in
theorem of_empty (empty : sem.queue = []) (flagged : hasWaiter sem.count = true →
    ∃ op, stage op = some .trying ∨ stage op = some .asleep) : Duplex sem user stage :=
  ⟨by simp [empty], by simp [empty], by simp [empty], flagged⟩

omit [DecidableEq ι] in
/-- A user in the queue is the other one where this one is not asleep. -/
theorem eq_other_of_mem (duplex : Duplex sem user stage) (users : Function.Injective user)
    {op op' : Op} (awake : stage op ≠ some .asleep) (queued : user op' ∈ sem.queue) :
    op' = op.other := by
  apply Op.eq_other_of_ne
  rintro rfl
  exact awake (duplex.asleep_of_mem users queued)

omit [DecidableEq ι] in
/-- The other user is asleep as before. -/
theorem asleep_update (duplex : Duplex sem user stage) {op : Op} {after : Stage}
    (other : ∀ op', user op' ∈ sem.queue → op' = op.other) :
    ∀ tid ∈ sem.queue, ∃ op', tid = user op' ∧
      Function.update stage op (some after) op' = some .asleep := by
  intro tid queued
  obtain ⟨op', rfl, sleeps⟩ := duplex.asleep tid queued
  obtain rfl := other op' queued
  exact ⟨_, rfl, (Function.update_of_ne (Op.other_ne _) _ _).trans sleeps⟩

omit [DecidableEq ι] in
/-- A user changes the word: whoever waits on the old one is woken. -/
theorem commit {op : Op} {word : U32} {after : Stage} (duplex : Duplex sem user stage)
    (users : Function.Injective user) (here : stage op = some .trying)
    (stored : hasWaiter word = false) (wakes : hasWaiter sem.count = true → after = .waking) :
    Duplex ({ sem with count := word } : Semaphore S R ι) user
      (Function.update stage op (some after)) := by
  have other (op' : Op) (queued : user op' ∈ sem.queue) : op' = op.other :=
    duplex.eq_other_of_mem users (by simp [here]) queued
  refine ⟨duplex.few, duplex.asleep_update other, fun op' queued => ?_, fun flag => ?_⟩
  · right
    rcases duplex.covered op' queued with ⟨flag, _⟩ | waking
    · rw [other op' queued, Op.other_other, Function.update_self, wakes flag]
    · rw [other op' queued, Op.other_other, here] at waking
      contradiction
  · rw [stored] at flag
    contradiction

omit [DecidableEq ι] in
/-- A user goes to sleep on an announced amount that it does not accept: nobody
else sleeps on that amount. -/
theorem enqueue {op : Op} (duplex : Duplex sem user stage) (users : Function.Injective user)
    (here : stage op = some .trying) (flag : hasWaiter sem.count = true)
    (amount : amountOf sem.count = op.refusal) :
    Duplex ({ sem with queue := sem.queue ++ [user op] } : Semaphore S R ι) user
      (Function.update stage op (some .asleep)) := by
  have empty : sem.queue = [] := by
    by_contra some_
    obtain ⟨tid, queued⟩ := List.exists_mem_of_ne_nil _ some_
    obtain ⟨op', rfl, _⟩ := duplex.asleep tid queued
    have awake : stage op ≠ some .asleep := by
      simp [here]
    have other := duplex.eq_other_of_mem users awake queued
    rcases duplex.covered op' queued with ⟨_, waits⟩ | waking
    · rw [other] at waits
      exact Op.refusal_other_ne _ (waits.symm.trans amount)
    · rw [other, Op.other_other, here] at waking
      contradiction
  have asleep : Function.update stage op (some .asleep) op = some .asleep :=
    Function.update_self ..
  refine ⟨by simp [empty], fun tid queued => ?_, fun op' queued => ?_, fun _ => ?_⟩
  · rw [empty, List.nil_append, List.mem_singleton] at queued
    exact ⟨op, queued, asleep⟩
  · rw [empty, List.nil_append, List.mem_singleton] at queued
    rw [users queued]
    exact Or.inl ⟨flag, amount⟩
  · exact ⟨op, Or.inr asleep⟩

omit [DecidableEq ι] in
/-- A user that has been woken tries again. -/
theorem resume {op : Op} (duplex : Duplex sem user stage) (here : stage op = some .asleep)
    (notQueued : user op ∉ sem.queue) :
    Duplex sem user (Function.update stage op (some .trying)) := by
  have other (op' : Op) (queued : user op' ∈ sem.queue) : op' = op.other := by
    apply Op.eq_other_of_ne
    rintro rfl
    exact notQueued queued
  refine ⟨duplex.few, duplex.asleep_update other, fun op' queued => ?_, fun _ => ?_⟩
  · left
    rcases duplex.covered op' queued with waits | waking
    · exact waits
    · rw [other op' queued, Op.other_other, here] at waking
      contradiction
  · exact ⟨op, Or.inl (Function.update_self ..)⟩

/-- A step of the call of one user. -/
theorem step {call : Call} {op : Op} {pc next : Pc} {event : Option Event}
    (duplex : Duplex sem user stage) (users : Function.Injective user) (opEq : call.op = op)
    (one : call.v = 1) (patient : call.timeout = none) (capacity : sem.max = 1)
    (token : amountOf sem.count = 0 ∨ amountOf sem.count = 1) (here : stage op = some pc.stage)
    (effect : Effect call (user op) sem pc semNext next event) :
    Duplex semNext user (Function.update stage op (some next.stage)) := by
  subst opEq
  have same (kept : next.stage = pc.stage) :
      Function.update stage call.op (some next.stage) = stage := by
    rw [kept, ← here, Function.update_eq_self]
  cases effect with
  | retry before after _ =>
      rw [same (after.trans before.symm)]
      exact duplex
  | arm before after _ _ =>
      rw [same (after.trans before.symm)]
      refine ⟨duplex.few, duplex.asleep, fun op queued => ?_, fun _ => ?_⟩
      · refine (duplex.covered op queued).imp_left ?_
        rintro ⟨_, amount⟩
        exact ⟨hasWaiter_withWaiter _, (amountOf_withWaiter _).trans amount⟩
      · exact ⟨call.op, Or.inl (here.trans (congrArg some before))⟩
  | commit before after admitted =>
      have maxSmall : sem.max.toNat < 2 ^ 31 := by rw [capacity]; decide
      have small : call.v.toNat ≤ 0x7fffffff := by rw [one]; decide
      have stored := (commit_spec maxSmall small admitted).2.1
      apply duplex.commit users (here.trans (congrArg some before)) stored
      intro flag
      rw [after, if_pos flag]
  | enqueue before after _ flag refused =>
      rw [capacity, one] at refused
      rw [after]
      exact duplex.enqueue users (here.trans (congrArg some before)) flag
        (Op.eq_refusal_of_refused token refused)
  | resume before after _ notQueued =>
      rw [after]
      exact duplex.resume (here.trans (congrArg some before)) notQueued
  | interrupt before after _ queued =>
      have empty : sem.queue.erase (user call.op) = [] := by
        rw [← List.length_eq_zero_iff, List.length_erase_of_mem queued]
        exact Nat.sub_eq_zero_of_le duplex.few
      refine .of_empty empty fun _ => ?_
      exact ⟨call.op, Or.inl (by rw [Function.update_self, after])⟩
  | expire _ _ _ _ timed => simp [patient] at timed
  | measure before after _ =>
      rw [same (after.trans before.symm)]
      exact ⟨duplex.few, duplex.asleep, duplex.covered, duplex.flagged⟩
  | notify before after _ _ woken =>
      have some_ : 1 ≤ futexWakeCount call.wake := Nat.le_max_left _ _
      have few := duplex.few
      refine .of_empty (List.length_eq_zero_iff.mp (by dsimp only; omega)) fun flag => ?_
      obtain ⟨op, waits⟩ := duplex.flagged flag
      have different : op ≠ call.op := by
        rintro rfl
        simp [here, before] at waits
      exact ⟨op, by rwa [Function.update_of_ne different]⟩

end Duplex

end Schtest.Semaphore
