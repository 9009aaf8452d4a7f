import Schtest.Child.Family

/-!
# What the parent learns from a child that returned

The bytes a child has written stay in its pipe until the parent has reaped the
child, and the parent reads all of them before it concludes a result.
-/

namespace Schtest.Child

open Schtest.Transition

universe u v

variable {ι : Type u} [DecidableEq ι] {Signal : Type v}

/-- The function of the child has returned this, and its write was complete. -/
def Proc.Delivered (proc : Proc Signal) (result : Result) : Prop :=
  proc.returned = some (result, encode result)

/-! ## Results belong to reaped children -/

/-- The parent reads from, caches results of, and reports results of reaped
children only. -/
structure Settled (family : Family ι Signal) : Prop where
  reading : ∀ {child call dead status buffer},
    family.parent = .read child call dead status buffer → (family.procs child).state = .reaped
  cached : ∀ {child result}, family.results child = some result →
    (family.procs child).state = .reaped
  logged : ∀ {entry result}, entry ∈ family.log → entry.reply = .wait (some result) →
    (family.procs entry.child).state = .reaped

section Effect

variable [ToString Signal] {handled : ι → Bool} {family next : Family ι Signal}
  {action : Action ι Signal}

omit [DecidableEq ι] [ToString Signal] in
theorem ne_of_reaped_of_running {child other : ι} (reaped : (family.procs child).state = .reaped)
    (running : (family.procs other).state = .running) : child ≠ other := by
  rintro rfl
  rw [running] at reaped
  contradiction

/-- A reaped process stays reaped. -/
theorem reaped_of_effect (effect : Effect handled family action next) {child : ι}
    (reaped : (family.procs child).state = .reaped) : (next.procs child).state = .reaped := by
  cases effect with
  | returned running _ => simpa [ne_of_reaped_of_running reaped running] using reaped
  | ended running => simpa [ne_of_reaped_of_running reaped running] using reaped
  | cached _ _ _ => simpa using reaped
  | begins _ _ _ => exact reaped
  | @reapsOwn other _ _ _ _ _ _ _ =>
      by_cases same : child = other
      · simp [reap, same]
      · simpa [reap, same] using reaped
  | @reapsOther _ _ _ _ pick _ _ _ _ =>
      by_cases same : child = pick
      · simp [reap, same]
      · simpa [reap, same] using reaped
  | findsNothing _ _ _ => simpa using reaped
  | findsNobody _ _ _ => exact reaped
  | @reads other _ _ _ _ _ _ _ _ =>
      by_cases same : child = other
      · subst same
        simpa using reaped
      · simpa [same] using reaped
  | concludes _ _ => simpa using reaped
  | interrupted => exact reaped
  | signals _ => exact reaped

/-- What the parent reads after a step: it has just reaped the child, or it
has moved a part of the pipe to the buffer. -/
theorem reading_of_effect (settled : Settled family) (effect : Effect handled family action next)
    {child : ι} {call : Call Signal} {dead : Bool} {status : Status Signal} {buffer : List UInt8}
    (reading : next.parent = .read child call dead status buffer) :
    ((family.procs child).state = .zombie status ∧ buffer = [] ∧
        next.procs = reap family.procs child) ∨
      ∃ before, family.parent = .read child call dead status before ∧
        buffer ++ (next.procs child).pipe = before ++ (family.procs child).pipe := by
  cases effect with
  | returned running _ =>
      have distinct := ne_of_reaped_of_running (settled.reading reading) running
      exact Or.inr ⟨buffer, reading, by simp [distinct]⟩
  | ended running =>
      have distinct := ne_of_reaped_of_running (settled.reading reading) running
      exact Or.inr ⟨buffer, reading, by simp [distinct]⟩
  | cached _ _ _ => exact absurd reading Family.finish_parent_ne_read
  | begins _ _ _ => contradiction
  | reapsOwn _ zombie =>
      cases reading
      exact Or.inl ⟨zombie, rfl, rfl⟩
  | reapsOther _ _ _ _ => contradiction
  | findsNothing _ _ _ => exact absurd reading Family.finish_parent_ne_read
  | findsNobody _ _ _ => contradiction
  | reads before _ _ =>
      cases reading
      exact Or.inr ⟨_, before, by simp⟩
  | concludes _ _ => exact absurd reading Family.finish_parent_ne_read
  | interrupted => exact Or.inr ⟨buffer, reading, rfl⟩
  | signals _ => contradiction

/-- The result of a child after a step: the one before, or the one concluded
from a pipe that is read to its end. -/
theorem cached_of_effect (effect : Effect handled family action next) {child : ι}
    {result : Result} (cached : next.results child = some result) :
    family.results child = some result ∨
      ∃ call dead status buffer, family.parent = .read child call dead status buffer ∧
        (family.procs child).pipe = [] ∧ result = concludeStatus status buffer := by
  cases effect with
  | concludes reading endOfFile =>
      rename_i other call dead status buffer n
      by_cases same : child = other
      · subst same
        rw [Family.finish_results, Family.cache_results, Function.update_self] at cached
        cases cached
        exact Or.inr ⟨call, dead, status, buffer, reading, endOfFile, rfl⟩
      · simp only [Family.finish_results, Family.cache_results, Function.update_of_ne same]
          at cached
        exact Or.inl cached
  | cached _ _ _ => exact Or.inl (by simpa using cached)
  | findsNothing _ _ _ => exact Or.inl (by simpa using cached)
  | returned _ _ => exact Or.inl cached
  | ended _ => exact Or.inl cached
  | begins _ _ _ => exact Or.inl cached
  | reapsOwn _ _ => exact Or.inl cached
  | reapsOther _ _ _ _ => exact Or.inl cached
  | findsNobody _ _ _ => exact Or.inl cached
  | reads _ _ _ => exact Or.inl cached
  | interrupted => exact Or.inl cached
  | signals _ => exact Or.inl cached

/-- A result that a `wait` reports after a step was reported before, or it is
cached in the handle. -/
theorem logged_of_effect (effect : Effect handled family action next) {entry : Entry ι Signal}
    {result : Result} (member : entry ∈ next.log) (reply : entry.reply = .wait (some result)) :
    entry ∈ family.log ∨ next.results entry.child = some result := by
  rcases entry_of_effect effect member with before | ⟨concluded, cached, replied⟩ |
    ⟨_, _, _, _, replied⟩ | ⟨_, _, _, replied⟩
  · exact Or.inl before
  · rw [replied] at reply
    rw [Call.reply_eq_wait reply]
    exact Or.inr cached
  · rw [replied] at reply
    have unknown := Call.reply_eq_wait reply
    contradiction
  · rw [replied] at reply
    contradiction

theorem Settled.of_effect (settled : Settled family) (effect : Effect handled family action next) :
    Settled next := by
  have cachedNext : ∀ {child result}, next.results child = some result →
      (next.procs child).state = .reaped := by
    intro child result cached
    rcases cached_of_effect effect cached with before | ⟨call, dead, status, buffer, reading, _⟩
    · exact reaped_of_effect effect (settled.cached before)
    · exact reaped_of_effect effect (settled.reading reading)
  constructor
  case reading =>
    intro child call dead status buffer reading
    rcases reading_of_effect settled effect reading with ⟨_, _, procs⟩ | ⟨before, beforeReading, _⟩
    · rw [procs]
      simp [reap]
    · exact reaped_of_effect effect (settled.reading beforeReading)
  case cached => exact cachedNext
  case logged =>
    intro entry result member reply
    rcases logged_of_effect effect member reply with before | cached
    · exact reaped_of_effect effect (settled.logged before reply)
    · exact cachedNext cached

/-! ## Nothing is lost on the way -/

/-- What the parent has of a child that returned `result`: the exit code is 0,
the bytes read and the bytes in the pipe are all that was written, and a cached
or reported result was concluded from all of them. -/
structure Intact (family : Family ι Signal) (child : ι) (result : Result) : Prop where
  zombie : ∀ {status}, (family.procs child).state = .zombie status →
    status = .exited 0 ∧ (family.procs child).pipe = encode result
  reading : ∀ {call dead status buffer}, family.parent = .read child call dead status buffer →
    status = .exited 0 ∧ buffer ++ (family.procs child).pipe = encode result
  cached : ∀ {concluded}, family.results child = some concluded →
    concluded = conclude (some 0) (none : Option Signal) (encode result)
  logged : ∀ {entry concluded}, entry ∈ family.log → entry.child = child →
    entry.reply = .wait (some concluded) →
    concluded = conclude (some 0) (none : Option Signal) (encode result)

/-- A process after a step: it has just terminated, or it has kept what it
returned and, unless it is reaped, what is in its pipe. -/
theorem proc_of_effect (settled : Settled family) (effect : Effect handled family action next)
    (child : ι) :
    (∃ status written returned, (family.procs child).state = .running ∧
        next.procs child = ⟨.zombie status, written, returned⟩ ∧
        ∀ result, (next.procs child).Delivered result →
          status = .exited 0 ∧ written = encode result) ∨
      ((next.procs child).returned = (family.procs child).returned ∧
        ∀ status, (next.procs child).state = .zombie status →
          next.procs child = family.procs child) := by
  cases effect with
  | @returned other result written running _ =>
      by_cases same : child = other
      · subst same
        refine Or.inl ⟨.exited 0, written, some (result, written), running, by simp, ?_⟩
        intro result' delivered
        simp only [Proc.Delivered, Function.update_self, Option.some.injEq, Prod.mk.injEq]
          at delivered
        exact ⟨rfl, by rw [delivered.2]⟩
      · exact Or.inr (by simp [same])
  | @ended other status written running =>
      by_cases same : child = other
      · subst same
        refine Or.inl ⟨status, written, none, running, by simp, ?_⟩
        intro result delivered
        simp [Proc.Delivered] at delivered
      · exact Or.inr (by simp [same])
  | @reapsOwn other _ _ _ _ _ _ _ =>
      by_cases same : child = other
      · exact Or.inr (by simp [reap, same])
      · exact Or.inr (by simp [reap, same])
  | @reapsOther _ _ _ _ pick _ _ _ _ =>
      by_cases same : child = pick
      · exact Or.inr (by simp [reap, same])
      · exact Or.inr (by simp [reap, same])
  | @reads other _ _ _ _ _ reading _ _ =>
      by_cases same : child = other
      · subst same
        have reaped := settled.reading reading
        exact Or.inr (by simp [reaped])
      · exact Or.inr (by simp [same])
  | cached _ _ _ => exact Or.inr (by simp)
  | begins _ _ _ => exact Or.inr (by simp)
  | findsNothing _ _ _ => exact Or.inr (by simp)
  | findsNobody _ _ _ => exact Or.inr (by simp)
  | concludes _ _ => exact Or.inr (by simp)
  | interrupted => exact Or.inr (by simp)
  | signals _ => exact Or.inr (by simp [Family.reply])

/-- What the parent has of a child that ended with this status and left these
bytes in its pipe: it has read or can still read all of them, and a cached or
reported result was concluded from them. -/
structure Ended (family : Family ι Signal) (child : ι) (status : Status Signal)
    (bytes : List UInt8) : Prop where
  zombie : ∀ {status'}, (family.procs child).state = .zombie status' →
    status' = status ∧ (family.procs child).pipe = bytes
  reading : ∀ {call dead status' buffer}, family.parent = .read child call dead status' buffer →
    status' = status ∧ buffer ++ (family.procs child).pipe = bytes
  cached : ∀ {concluded}, family.results child = some concluded →
    concluded = concludeStatus status bytes
  logged : ∀ {entry concluded}, entry ∈ family.log → entry.child = child →
    entry.reply = .wait (some concluded) → concluded = concludeStatus status bytes

omit [DecidableEq ι] in
theorem intact_iff_ended {child : ι} {result : Result} :
    Intact family child result ↔ Ended family child (.exited 0) (encode result) := by
  constructor
  · intro intact
    exact ⟨intact.zombie, intact.reading, intact.cached, intact.logged⟩
  · intro ended
    exact ⟨ended.zombie, ended.reading, ended.cached, ended.logged⟩

omit [DecidableEq ι] in
/-- The parent knows nothing yet about a child that has just terminated. -/
theorem Ended.of_terminated (settled : Settled family) {child : ι} {status : Status Signal}
    {bytes : List UInt8} {returned : Option (Result × List UInt8)}
    (proc : family.procs child = ⟨.zombie status, bytes, returned⟩) :
    Ended family child status bytes := by
  have state : (family.procs child).state ≠ .reaped := by
    simp [proc]
  constructor
  case zombie =>
    intro status' zombie
    rw [proc] at zombie ⊢
    cases zombie
    exact ⟨rfl, rfl⟩
  case reading =>
    intro call dead status' buffer reading
    exact absurd (settled.reading reading) state
  case cached =>
    intro concluded cached
    exact absurd (settled.cached cached) state
  case logged =>
    rintro entry concluded member rfl reply
    exact absurd (settled.logged member reply) state

/-- Nothing of it is lost in a later step. -/
theorem Ended.of_effect {child : ι} {status : Status Signal} {bytes : List UInt8}
    (ended : Ended family child status bytes) (settled : Settled family)
    (effect : Effect handled family action next)
    (kept : ∀ status, (next.procs child).state = .zombie status →
      next.procs child = family.procs child) : Ended next child status bytes := by
  have cachedNext : ∀ {concluded}, next.results child = some concluded →
      concluded = concludeStatus status bytes := by
    intro concluded cached
    rcases cached_of_effect effect cached with same | ⟨_, _, status', buffer, reading, empty, new⟩
    · exact ended.cached same
    · obtain ⟨same, all⟩ := ended.reading reading
      rw [new, same, ← all, empty, List.append_nil]
  constructor
  case zombie =>
    intro status' zombie
    have same := kept status' zombie
    rw [same] at zombie ⊢
    exact ended.zombie zombie
  case reading =>
    intro call dead status' buffer reading
    rcases reading_of_effect settled effect reading with ⟨zombie, empty, procs⟩ |
      ⟨buffer', reading', all⟩
    · obtain ⟨same, pipe⟩ := ended.zombie zombie
      refine ⟨same, ?_⟩
      simpa [empty, procs, reap] using pipe
    · rw [all]
      exact ended.reading reading'
  case cached => exact cachedNext
  case logged =>
    intro entry concluded member same reply
    rcases logged_of_effect effect member reply with already | cached
    · exact ended.logged already same reply
    · rw [same] at cached
      exact cachedNext cached

theorem intact_of_effect (settled : Settled family)
    (intact : ∀ child result, (family.procs child).Delivered result → Intact family child result)
    (effect : Effect handled family action next) (child : ι) (result : Result)
    (delivered : (next.procs child).Delivered result) : Intact next child result := by
  rw [intact_iff_ended]
  rcases proc_of_effect settled effect child with ⟨status, written, _, _, proc, terminated⟩ |
    ⟨returned, kept⟩
  · obtain ⟨rfl, rfl⟩ := terminated result delivered
    exact .of_terminated (settled.of_effect effect) proc
  · have before := intact child result (by rwa [Proc.Delivered, ← returned])
    exact (intact_iff_ended.mp before).of_effect settled effect kept

end Effect

/-! ## Runs -/

variable [Fintype ι] [ToString Signal] {handled : ι → Bool} {family : Family ι Signal}

theorem settled_of_reachable {ok : Family ι Signal → Action ι Signal → Prop}
    (reachable : (familySystem ι Signal handled).ReachableUnder ok family) : Settled family := by
  apply reachable.invariant Settled
  · rintro _ rfl
    constructor
    case reading =>
      intro child call dead status buffer reading
      contradiction
    case cached =>
      intro child result cached
      contradiction
    case logged =>
      intro entry result member reply
      contradiction
  · intro state action next _ _ step settled
    exact settled.of_effect (effect_of_step step)

theorem intact_of_reachable (reachable : (familySystem ι Signal handled).Reachable family) :
    ∀ child result, (family.procs child).Delivered result → Intact family child result := by
  refine reachable.invariant
    (fun family => ∀ child result, (family.procs child).Delivered result →
      Intact family child result) ?_ ?_
  · rintro _ rfl child result delivered
    contradiction
  · intro state action next before step intact
    exact intact_of_effect (settled_of_reachable before) intact (effect_of_step step)

/-- What `wait` returns for a child whose function has returned tells success
from failure, with the whole text of the error, unless that text is empty. -/
theorem results_survive (reachable : (familySystem ι Signal handled).Reachable family)
    {entry : Entry ι Signal} (member : entry ∈ family.log) {concluded : Result}
    (reply : entry.reply = .wait (some concluded)) {result : Result}
    (delivered : (family.procs entry.child).Delivered result) :
    Survives result concluded ↔ result ≠ .error "" := by
  have intact := intact_of_reachable reachable entry.child result delivered
  rw [intact.logged member rfl reply]
  exact survives_conclude_iff none result

/-- A child whose function returns this result, and a parent that waits for it. -/
def waitRun (result : Result) : List (Action (Fin 1) Nat) :=
  [.returned 0 result (encode result), .call 0 (.wait true false), .waitpid 0] ++
    (if encode result = [] then [] else [.read (encode result).length]) ++ [.read 1]

/-- The run ends with this result in the hands of the parent. -/
def Replied (result concluded : Result) (family : Family (Fin 1) Nat) : Prop :=
  (family.procs 0).returned = some (result, encode result) ∧
    family.log = [⟨0, .wait true false, true, .wait (some concluded)⟩]

instance (result concluded : Result) : DecidablePred (Replied result concluded) :=
  fun _ => inferInstanceAs (Decidable (_ ∧ _))

theorem results_survive_testError :
    ∃ family : Family (Fin 1) Nat, (familySystem (Fin 1) Nat fun _ => true).Reachable family ∧
      Replied (.error "Test error") (.error "Child process error: Test error") family ∧
      Survives (.error "Test error") (.error "Child process error: Test error") := by
  have run : ((familySystem (Fin 1) Nat fun _ => true).exec .initial
      (waitRun (.error "Test error"))).any (fun family => Replied (.error "Test error")
        (.error "Child process error: Test error") family) = true := by
    decide
  obtain ⟨family, reachable, ended⟩ := System.exists_reachable_of_exec _ _ rfl run
  have replied := of_decide_eq_true ended
  refine ⟨family, reachable, replied, ?_⟩
  have member : (⟨0, .wait true false, true,
      .wait (some (.error "Child process error: Test error"))⟩ : Entry (Fin 1) Nat) ∈
      family.log := by
    simp [replied.2]
  exact (results_survive reachable member rfl replied.1).mpr (by decide)

/-- An error without text arrives as success. -/
theorem empty_error_lost :
    ∃ family : Family (Fin 1) Nat, (familySystem (Fin 1) Nat fun _ => true).Reachable family ∧
      Replied (.error "") (.ok ()) family ∧ ¬ Survives (.error "") (.ok ()) := by
  have run : ((familySystem (Fin 1) Nat fun _ => true).exec .initial
      (waitRun (.error ""))).any (fun family => Replied (.error "") (.ok ()) family) = true := by
    decide
  obtain ⟨family, reachable, ended⟩ := System.exists_reachable_of_exec _ _ rfl run
  refine ⟨family, reachable, of_decide_eq_true ended, ?_⟩
  rintro ⟨success, _⟩
  exact absurd (success.mp rfl) (by simp)

end Schtest.Child
