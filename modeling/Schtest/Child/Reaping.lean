import Schtest.Child.Delivery

/-!
# Noticing that a child is dead

A `wait` for any child throws away the status of a child that is not its own.
The handle of that child then takes `ECHILD` for a child that is still alive.
As long as this does not happen, no death goes unnoticed.
-/

namespace Schtest.Child

open Schtest.Transition

universe u v

variable {ι : Type u} [DecidableEq ι] {Signal : Type v}

/-! ## The condition on runs -/

/-- This step is not the one with which a `wait` for any child reaps the child
of another handle. -/
def SparesSiblings (handled : ι → Bool) (family : Family ι Signal) (action : Action ι Signal) :
    Prop :=
  match family.parent, action with
  | .wait child call _ _, .waitpid pick =>
      call.all = true → pick ≠ child → handled pick = true →
        (family.procs pick).state.isZombie = false
  | _, _ => True

instance (handled : ι → Bool) (family : Family ι Signal) (action : Action ι Signal) :
    Decidable (SparesSiblings handled family action) := by
  unfold SparesSiblings
  split <;> infer_instance

/-- The processes that `waitpid` can still report. -/
def unreaped [Fintype ι] (procs : ι → Proc Signal) : Nat :=
  (Finset.univ.filter fun pid => (procs pid).state.isReaped = false).card

section Unreaped

variable [Fintype ι]

omit [DecidableEq ι] in
theorem unreaped_le_card (procs : ι → Proc Signal) : unreaped procs ≤ Fintype.card ι :=
  Finset.card_le_univ _

omit [DecidableEq ι] in
theorem unreaped_pos {procs : ι → Proc Signal} {pid : ι} (state : (procs pid).state ≠ .reaped) :
    0 < unreaped procs := by
  apply Finset.card_pos.mpr
  refine ⟨pid, Finset.mem_filter.mpr ⟨Finset.mem_univ pid, ?_⟩⟩
  exact Bool.eq_false_iff.mpr fun reaped => state (ProcState.isReaped_iff.mp reaped)

/-- The count does not change with a process that is not reaped before or
after. -/
theorem unreaped_update {procs : ι → Proc Signal} {pid : ι} {proc : Proc Signal}
    (same : proc.state.isReaped = (procs pid).state.isReaped) :
    unreaped (Function.update procs pid proc) = unreaped procs := by
  unfold unreaped
  congr 1
  apply Finset.filter_congr
  intro other _
  by_cases own : other = pid
  · rw [own, Function.update_self, same]
  · rw [Function.update_of_ne own]

theorem unreaped_reap (procs : ι → Proc Signal) {pid : ι}
    (zombie : (procs pid).state.isZombie = true) :
    unreaped (reap procs pid) + 1 = unreaped procs := by
  obtain ⟨status, state⟩ := ProcState.isZombie_iff.mp zombie
  have member : pid ∈ Finset.univ.filter fun pid => (procs pid).state.isReaped = false := by
    refine Finset.mem_filter.mpr ⟨Finset.mem_univ pid, ?_⟩
    simp [state, ProcState.isReaped]
  have erased : (Finset.univ.filter fun other => (reap procs pid other).state.isReaped = false) =
      (Finset.univ.filter fun other => (procs other).state.isReaped = false).erase pid := by
    ext other
    rw [Finset.mem_filter_univ, Finset.mem_erase, Finset.mem_filter_univ]
    by_cases own : other = pid
    · simp [own, reap, ProcState.isReaped]
    · simp [own, reap]
  rw [unreaped, erased, Finset.card_erase_add_one member, unreaped]

end Unreaped

/-! ## Nothing is reaped behind a handle's back -/

/-- A handle whose child is reaped knows the result, or is about to; and where
the parent waits for or signals a child, its result is not known yet. -/
structure Attended [Fintype ι] (handled : ι → Bool) (family : Family ι Signal) : Prop where
  reaped : ∀ {child}, handled child = true → (family.procs child).state = .reaped →
    (∃ result, family.results child = some result) ∨
      ∃ call dead status buffer, family.parent = .read child call dead status buffer
  waiting : ∀ {child call dead polls}, family.parent = .wait child call dead polls →
    handled child = true ∧ family.results child = none ∧
      (dead = true → (family.procs child).state ≠ .running) ∧
      polls + unreaped family.procs ≤ Fintype.card ι
  signaling : ∀ {child signal dead}, family.parent = .signal child signal dead →
    handled child = true ∧ family.results child = none

section Effect

variable [Fintype ι] [ToString Signal] {handled : ι → Bool} {family next : Family ι Signal}
  {action : Action ι Signal}

omit [DecidableEq ι] [ToString Signal] in
theorem Attended.known (attended : Attended handled family) {child : ι}
    (handle : handled child = true) (reaped : (family.procs child).state = .reaped)
    (elsewhere : ∀ call dead status buffer,
      family.parent ≠ .read child call dead status buffer) :
    ∃ result, family.results child = some result := by
  rcases attended.reaped handle reaped with known | ⟨_, _, _, _, reading⟩
  · exact known
  · exact absurd reading (elsewhere _ _ _ _)

omit [DecidableEq ι] [ToString Signal] in
/-- While the parent waits for a child, the child is not reaped. -/
theorem Attended.not_reaped_of_waiting (attended : Attended handled family) {child : ι}
    {call : Call Signal} {dead : Bool} {polls : Nat}
    (waiting : family.parent = .wait child call dead polls) :
    (family.procs child).state ≠ .reaped := by
  intro reaped
  obtain ⟨handle, uncached, _⟩ := attended.waiting waiting
  obtain ⟨result, cached⟩ := attended.known handle reaped (by simp [waiting])
  rw [uncached] at cached
  contradiction

omit [DecidableEq ι] [ToString Signal] in
theorem Attended.not_reaped_of_signaling (attended : Attended handled family) {child : ι}
    {signal : Signal} {dead : Bool} (signaling : family.parent = .signal child signal dead) :
    (family.procs child).state ≠ .reaped := by
  intro reaped
  obtain ⟨handle, uncached⟩ := attended.signaling signaling
  obtain ⟨result, cached⟩ := attended.known handle reaped (by simp [signaling])
  rw [uncached] at cached
  contradiction

/-- The step keeps `reaped`: only a step that breaks the condition reaps the
child of another handle. -/
theorem Attended.reaped_of_effect (attended : Attended handled family)
    (effect : Effect handled family action next) (spares : SparesSiblings handled family action)
    {child : ι} (handle : handled child = true) (reaped : (next.procs child).state = .reaped) :
    (∃ result, next.results child = some result) ∨
      ∃ call dead status buffer, next.parent = .read child call dead status buffer := by
  cases effect with
  | @returned other result written running _ =>
      by_cases same : child = other
      · simp [same] at reaped
      · exact attended.reaped handle (by simpa [same] using reaped)
  | @ended other status written running =>
      by_cases same : child = other
      · simp [same] at reaped
      · exact attended.reaped handle (by simpa [same] using reaped)
  | cached idle _ _ =>
      have known := attended.known handle (by simpa using reaped) (by simp [idle])
      exact Or.inl (by simpa using known)
  | begins idle _ _ => exact Or.inl (attended.known handle reaped (by simp [idle]))
  | @reapsOwn other call dead _ status _ waiting _ =>
      by_cases same : child = other
      · subst same
        exact Or.inr ⟨call, dead, status, [], rfl⟩
      · have before : (family.procs child).state = .reaped := by
          simpa [reap, same] using reaped
        exact Or.inl (attended.known handle before (by simp [waiting]))
  | @reapsOther other call _ _ pick waiting all distinct zombie =>
      by_cases same : child = pick
      · subst same
        have spared : (family.procs child).state.isZombie = false := by
          simp only [SparesSiblings, waiting] at spares
          exact spares all distinct handle
        rw [spared] at zombie
        contradiction
      · have before : (family.procs child).state = .reaped := by
          simpa [reap, same] using reaped
        exact Or.inl (attended.known handle before (by simp [waiting]))
  | findsNothing waiting _ _ =>
      have known := attended.known handle (by simpa using reaped) (by simp [waiting])
      exact Or.inl (by simpa using known)
  | findsNobody waiting _ _ => exact Or.inl (attended.known handle reaped (by simp [waiting]))
  | @reads other call dead status buffer n reading _ _ =>
      have before : (family.procs child).state = .reaped := by
        by_cases same : child = other
        · subst same
          simpa using reaped
        · simpa [same] using reaped
      by_cases same : child = other
      · subst same
        exact Or.inr ⟨_, _, _, _, rfl⟩
      · exact Or.inl (attended.known handle before (by simp [reading, Ne.symm same]))
  | @concludes other call dead status buffer _ reading _ =>
      by_cases same : child = other
      · subst same
        exact Or.inl ⟨concludeStatus status buffer, by simp⟩
      · have known := attended.known handle (by simpa using reaped)
          (by simp [reading, Ne.symm same])
        exact Or.inl (by simpa [same] using known)
  | interrupted => exact attended.reaped handle reaped
  | signals signaling => exact Or.inl (attended.known handle reaped (by simp [signaling]))

omit [ToString Signal] in
/-- The end of a child takes nothing from the wait of the parent. -/
theorem Attended.waiting_of_terminated (attended : Attended handled family) {ended child : ι}
    {proc : Proc Signal} (running : (family.procs ended).state = .running)
    (zombie : proc.state.isZombie = true) {call : Call Signal} {dead : Bool} {polls : Nat}
    (waiting : family.parent = .wait child call dead polls) :
    handled child = true ∧ family.results child = none ∧
      (dead = true → (Function.update family.procs ended proc child).state ≠ .running) ∧
      polls + unreaped (Function.update family.procs ended proc) ≤ Fintype.card ι := by
  obtain ⟨handle, uncached, terminated, count⟩ := attended.waiting waiting
  obtain ⟨status, isZombie⟩ := ProcState.isZombie_iff.mp zombie
  refine ⟨handle, uncached, ?_, ?_⟩
  · intro isDead
    by_cases same : child = ended
    · simp [same, isZombie]
    · simpa [same] using terminated isDead
  · rwa [unreaped_update (by simp [running, isZombie, ProcState.isReaped])]

/-- The step keeps `waiting`: a `waitpid` that does not end the wait has reaped
a process. -/
theorem Attended.waiting_of_effect (attended : Attended handled family)
    (effect : Effect handled family action next) {child : ι} {call : Call Signal} {dead : Bool}
    {polls : Nat} (waiting : next.parent = .wait child call dead polls) :
    handled child = true ∧ next.results child = none ∧
      (dead = true → (next.procs child).state ≠ .running) ∧
      polls + unreaped next.procs ≤ Fintype.card ι := by
  cases effect with
  | returned running _ => exact attended.waiting_of_terminated running rfl waiting
  | ended running => exact attended.waiting_of_terminated running rfl waiting
  | cached _ _ _ => exact absurd waiting Family.finish_parent_ne_wait
  | begins _ handle uncached =>
      cases waiting
      refine ⟨handle, uncached, ?_, ?_⟩
      · intro isDead running
        rw [ProcState.isRunning_iff.mpr running] at isDead
        contradiction
      · rw [Nat.zero_add]
        exact unreaped_le_card family.procs
  | reapsOwn _ _ => contradiction
  | @reapsOther other _ _ _ pick before _ distinct zombie =>
      cases waiting
      obtain ⟨handle, uncached, terminated, count⟩ := attended.waiting before
      have reaps := unreaped_reap family.procs zombie
      refine ⟨handle, uncached, ?_, ?_⟩
      · intro isDead
        simpa [reap, distinct.symm] using terminated isDead
      · change _ + unreaped (reap family.procs pick) ≤ _
        omega
  | findsNothing _ _ _ => exact absurd waiting Family.finish_parent_ne_wait
  | findsNobody before _ reaped => exact absurd reaped (attended.not_reaped_of_waiting before)
  | reads _ _ _ => contradiction
  | concludes _ _ => exact absurd waiting Family.finish_parent_ne_wait
  | interrupted => exact attended.waiting waiting
  | signals _ => contradiction

theorem Attended.signaling_of_effect (attended : Attended handled family)
    (effect : Effect handled family action next) {child : ι} {signal : Signal} {dead : Bool}
    (signaling : next.parent = .signal child signal dead) :
    handled child = true ∧ next.results child = none := by
  cases effect with
  | returned _ _ => exact attended.signaling signaling
  | ended _ => exact attended.signaling signaling
  | cached _ _ _ =>
      obtain ⟨_, unknown⟩ := Family.eq_of_finish_parent_signal signaling
      contradiction
  | begins _ _ _ => contradiction
  | reapsOwn _ _ => contradiction
  | reapsOther _ _ _ _ => contradiction
  | findsNothing waiting _ _ =>
      obtain ⟨rfl, _⟩ := Family.eq_of_finish_parent_signal signaling
      obtain ⟨handle, uncached, _⟩ := attended.waiting waiting
      exact ⟨handle, by simpa using uncached⟩
  | findsNobody _ _ _ => contradiction
  | reads _ _ _ => contradiction
  | concludes _ _ =>
      obtain ⟨_, unknown⟩ := Family.eq_of_finish_parent_signal signaling
      contradiction
  | interrupted => exact attended.signaling signaling
  | signals _ => contradiction

theorem Attended.of_effect (attended : Attended handled family)
    (effect : Effect handled family action next) (spares : SparesSiblings handled family action) :
    Attended handled next := by
  constructor
  case reaped => exact attended.reaped_of_effect effect spares
  case waiting => exact attended.waiting_of_effect effect
  case signaling => exact attended.signaling_of_effect effect

end Effect

end Schtest.Child
