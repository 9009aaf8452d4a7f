import Schtest.Semaphore.Amount
import Schtest.Semaphore.Threads
import Mathlib.Algebra.BigOperators.Group.List.Basic

/-!
# Token conservation

The amount in the count word is what the successful exchanges of `produce`
have added minus what those of `consume` have taken.  The balance is a global
invariant of the shared state; that every call contributes exactly once or not
at all is an assertion of the calling thread about its own entries in the log,
with which the entries of other threads cannot interfere.
-/

namespace Schtest.Semaphore

open Schtest.Transition

universe u

variable {S R : Nat} {ι : Type u} [DecidableEq ι]

/-! ## Accounts kept by the log -/

/-- Tokens moved by the successful exchanges of one operation. -/
def total (op : Op) (log : List (Entry ι)) : Nat :=
  (log.map fun entry =>
    if entry.event = .committed ∧ entry.call.op = op then entry.call.v.toNat else 0).sum

/-- Successful exchanges of one call, the `index`-th of `thread`. -/
def commits (thread : ι) (index : Nat) (log : List (Entry ι)) : Nat :=
  log.countP fun entry =>
    decide (entry.thread = thread ∧ entry.index = index ∧ entry.event = .committed)

omit [DecidableEq ι] in
@[simp]
theorem total_nil (op : Op) : total op ([] : List (Entry ι)) = 0 :=
  rfl

omit [DecidableEq ι] in
theorem total_cons (op : Op) (entry : Entry ι) (log : List (Entry ι)) :
    total op (entry :: log) =
      (if entry.event = .committed ∧ entry.call.op = op then entry.call.v.toNat else 0) +
        total op log := by
  simp [total]

@[simp]
theorem commits_nil (thread : ι) (index : Nat) : commits thread index [] = 0 :=
  rfl

theorem commits_cons (thread : ι) (index : Nat) (entry : Entry ι) (log : List (Entry ι)) :
    commits thread index (entry :: log) = commits thread index log +
      if entry.thread = thread ∧ entry.index = index ∧ entry.event = .committed then 1 else 0 := by
  simp [commits, List.countP_cons]

/-- A call's own event counts when it is the exchange. -/
theorem commits_record_self (tid : ι) (index : Nat) (call : Call) (now : Nat)
    (event : Option Event) (log : List (Entry ι)) :
    commits tid index (record tid index call now event log) =
      commits tid index log + if event = some .committed then 1 else 0 := by
  cases event with
  | none => simp
  | some event => simp [commits_cons]

/-- Events of other calls do not count. -/
theorem commits_record_of_ne {thread tid : ι} {k index : Nat} (other : thread ≠ tid ∨ k ≠ index)
    (call : Call) (now : Nat) (event : Option Event) (log : List (Entry ι)) :
    commits thread k (record tid index call now event log) = commits thread k log := by
  cases event with
  | none => rfl
  | some event =>
      rw [record_some, commits_cons, if_neg, Nat.add_zero]
      rintro ⟨threadEq, indexEq, _⟩
      exact other.elim (fun ne => ne threadEq.symm) (fun ne => ne indexEq.symm)

omit [DecidableEq ι] in
theorem total_record_of_ne {event : Option Event} (quiet : event ≠ some .committed) (op : Op)
    (tid : ι) (index : Nat) (call : Call) (now : Nat) (log : List (Entry ι)) :
    total op (record tid index call now event log) = total op log := by
  cases event with
  | none => rfl
  | some event =>
      have other : event ≠ .committed := fun equal => quiet (congrArg some equal)
      simp [total_cons, other]

/-- Only the thread itself records that a call has returned. -/
theorem Call.step_event_ne_returned {call : Call} {now : Nat} {tid : ι}
    {sem : Semaphore S R ι} {pc : Pc} {choice : Choice ι} {out : Outcome S R ι}
    (step : call.step now tid sem pc choice = some out) (result : Bool) :
    out.event ≠ some (.returned result) := by
  unfold Call.step at step
  split at step <;> (try split at step) <;> cases step <;> simp

/-! ## Invariants -/

/-- The account of the shared state. -/
structure Balanced (max : U32) (shared : Shared S R ι) : Prop where
  max_eq : shared.sem.max = amountOf max
  bounded : (amountOf shared.sem.count).toNat ≤ (amountOf max).toNat
  balance : (amountOf shared.sem.count).toNat + total .consume shared.log =
    total .produce shared.log

/-- The account of one thread. -/
structure Thread.Accounted (max : U32) (tid : ι) (shared : Shared S R ι) (thread : Thread) :
    Prop where
  small : ∀ call ∈ thread.calls, call.v.toNat ≤ 0x7fffffff
  valid : thread.Valid (amountOf max)
  current : commits tid thread.completed shared.log = thread.pc.stage.commits
  future : ∀ index, thread.completed < index → commits tid index shared.log = 0
  past : ∀ entry ∈ shared.log, entry.thread = tid → ∀ result, entry.event = .returned result →
    entry.index < thread.completed ∧ commits tid entry.index shared.log = result.toNat

/-- A step of a call keeps the account of the shared state. -/
theorem Balanced.of_effect {max : U32} {shared : Shared S R ι} (balanced : Balanced max shared)
    {call : Call} (small : call.v.toNat ≤ 0x7fffffff) {tid : ι} {semNext : Semaphore S R ι}
    {pc next : Pc} {event : Option Event}
    (effect : Effect call tid shared.sem pc semNext next event) (index now : Nat) :
    Balanced max (⟨now, semNext, record tid index call now event shared.log⟩ : Shared S R ι) := by
  obtain ⟨max_eq, bounded, balance⟩ := balanced
  have max_eq_next : semNext.max = amountOf max := effect.max_eq.trans max_eq
  rcases effect.commit_or_quiet with ⟨rfl, admitted, stored⟩ | ⟨quiet, same⟩
  · rw [max_eq] at admitted
    obtain ⟨storedEq, _, plain⟩ := commit_spec (amountOf_lt max) small admitted
    have enough := (Op.admits_iff (amountOf_add_lt _ small)).mp admitted
    refine ⟨max_eq_next, ?_, ?_⟩
    · rw [stored, plain, storedEq]
      exact Op.result_le bounded enough
    · simp only [stored, plain, storedEq, record_some, total_cons, true_and]
      cases opEq : call.op with
      | consume =>
          simp only [opEq, Op.Admits] at enough
          simp only [Op.result, reduceIte, reduceCtorEq]
          omega
      | produce =>
          simp only [Op.result, reduceIte, reduceCtorEq]
          omega
  · refine ⟨max_eq_next, ?_, ?_⟩
    · rw [same]
      exact bounded
    · rw [same, total_record_of_ne quiet, total_record_of_ne quiet]
      exact balance

/-- A thread's own step keeps its account. -/
theorem Thread.Accounted.own {max : U32} {tid : ι} {shared sharedNext : Shared S R ι}
    {thread next : Thread} {action : Action ι} (max_eq : shared.sem.max = amountOf max)
    (accounted : thread.Accounted max tid shared)
    (step : thread.step tid shared action = some (sharedNext, next)) :
    next.Accounted max tid sharedNext := by
  have validNext : next.Valid (amountOf max) := by
    rw [← max_eq]
    exact (Thread.step_valid (by rw [max_eq]; exact accounted.valid) step).2
  obtain ⟨call, rest, callsEq, cases⟩ := Thread.step_cases step
  obtain ⟨small, valid, current, future, past⟩ := accounted
  rw [callsEq] at small
  rcases cases with ⟨result, returned, rfl, rfl⟩ | ⟨out, callStep, rfl, rfl⟩
  · have settled : commits tid thread.completed shared.log = result.toNat := by
      rw [current, returned]
      rfl
    refine ⟨fun other member => small other (List.mem_cons_of_mem _ member), validNext, ?_, ?_, ?_⟩
    · rw [commits_record_of_ne (Or.inr (by simp))]
      exact future _ (Nat.lt_succ_self _)
    · intro index later
      have newer : thread.completed < index := Nat.lt_of_succ_lt later
      rw [commits_record_of_ne (Or.inr newer.ne')]
      exact future index newer
    · intro entry member threadEq result' eventEq
      rw [record_some, List.mem_cons] at member
      rcases member with rfl | member
      · cases eventEq
        refine ⟨Nat.lt_succ_self _, ?_⟩
        rw [commits_record_self]
        simpa using settled
      · obtain ⟨older, count⟩ := past entry member threadEq result' eventEq
        refine ⟨older.trans (Nat.lt_succ_self _), ?_⟩
        rw [commits_record_of_ne (Or.inr older.ne)]
        exact count
  · have effect := (Call.effect_of_step (by rw [max_eq]; exact valid call rest callsEq) callStep).1
    refine ⟨small, validNext, ?_, ?_, ?_⟩
    · rw [commits_record_self, current]
      exact effect.commits_eq.symm
    · intro index later
      rw [commits_record_of_ne (Or.inr (Nat.ne_of_gt later))]
      exact future index later
    · intro entry member threadEq result eventEq
      have old : entry ∈ shared.log := by
        cases eventCase : out.event with
        | none => simpa [eventCase] using member
        | some event =>
            rw [eventCase, record_some, List.mem_cons] at member
            apply member.resolve_left
            rintro rfl
            exact Call.step_event_ne_returned callStep result (eventCase.trans (by rw [← eventEq]))
      obtain ⟨older, count⟩ := past entry old threadEq result eventEq
      refine ⟨older, ?_⟩
      rw [commits_record_of_ne (Or.inr older.ne)]
      exact count

/-- Another thread's step adds no entry of this thread to the log. -/
theorem Thread.Accounted.other {max : U32} {tid actor : ι} {shared sharedNext : Shared S R ι}
    {thread acting next : Thread} {action : Action ι} (distinct : tid ≠ actor)
    (accounted : thread.Accounted max tid shared)
    (step : acting.step actor shared action = some (sharedNext, next)) :
    thread.Accounted max tid sharedNext := by
  obtain ⟨small, valid, current, future, past⟩ := accounted
  have log : ∃ event index call now, sharedNext.log =
      record actor index call now event shared.log := by
    obtain ⟨call, rest, _, ⟨result, _, _, rfl⟩ | ⟨out, _, _, rfl⟩⟩ := Thread.step_cases step
    · exact ⟨_, _, _, _, rfl⟩
    · exact ⟨_, _, _, _, rfl⟩
  obtain ⟨event, index, call, now, logEq⟩ := log
  have same : ∀ k, commits tid k sharedNext.log = commits tid k shared.log := by
    intro k
    rw [logEq]
    exact commits_record_of_ne (Or.inl distinct) call now event shared.log
  refine ⟨small, valid, (same _).trans current, fun k later => (same k).trans (future k later), ?_⟩
  intro entry member threadEq result eventEq
  have old : entry ∈ shared.log := by
    rw [logEq] at member
    cases event with
    | none => exact member
    | some event =>
        rw [record_some, List.mem_cons] at member
        apply member.resolve_left
        rintro rfl
        exact distinct threadEq.symm
  obtain ⟨older, count⟩ := past entry old threadEq result eventEq
  exact ⟨older, (same _).trans count⟩

/-- Arguments of at most 31 bits. -/
def SmallCall (call : Call) : Prop :=
  call.v.toNat ≤ 0x7fffffff

/-- The accounts hold in every reachable state. -/
theorem accounts_of_reachable {max : U32}
    {config : Threads ι (Shared S R ι) Thread}
    (reachable : (threadSystem S R ι max SmallCall).Reachable config) :
    Balanced max config.shared ∧
      ∀ tid, (config.locals tid).Accounted max tid config.shared := by
  refine Program.noninterference (Balanced max)
    (fun tid shared thread => Thread.Accounted max tid shared thread) ?_ ?_ ?_ ?_ reachable
  · rintro shared ⟨readings, _, semEq, logEq⟩
    have empty : (amountOf shared.sem.count).toNat = 0 := by
      rw [semEq, new_amount]
      rfl
    refine ⟨by rw [semEq]; rfl, by rw [empty]; exact Nat.zero_le _, ?_⟩
    rw [empty, logEq]
    rfl
  · rintro tid shared thread ⟨readings, _, _, logEq⟩ ⟨small, pcEq, _⟩
    refine ⟨small, .of_load pcEq, ?_, ?_, ?_⟩
    · rw [logEq, pcEq]
      rfl
    · intro index _
      rw [logEq]
      rfl
    · intro entry member
      rw [logEq] at member
      contradiction
  · intro config tid action shared next _ balanced accounted step
    refine ⟨?_, (accounted tid).own balanced.max_eq step⟩
    obtain ⟨call, rest, callsEq, cases⟩ := Thread.step_cases step
    rcases cases with ⟨result, _, _, rfl⟩ | ⟨out, callStep, _, rfl⟩
    · refine ⟨balanced.max_eq, balanced.bounded, ?_⟩
      rw [total_record_of_ne (by simp), total_record_of_ne (by simp)]
      exact balanced.balance
    · have valid := (accounted tid).valid call rest callsEq
      rw [← balanced.max_eq] at valid
      exact balanced.of_effect ((accounted tid).small call (by rw [callsEq]; simp))
        (Call.effect_of_step valid callStep).1 _ _
  · intro config tid action shared next j distinct _ _ accounted step
    exact (accounted j).other distinct step

/-- What token conservation promises of a state. -/
structure TokensConserved (max : U32) (config : Threads ι (Shared S R ι) Thread) : Prop where
  maxEq : config.shared.sem.max = max &&& ~~~WAITER
  balance : ((amountOf config.shared.sem.count).toNat : ℤ) =
    (total .produce config.shared.log : ℤ) - (total .consume config.shared.log : ℤ)
  bounded : (amountOf config.shared.sem.count).toNat ≤ config.shared.sem.max.toNat
  /-- The word a thread is about to store is the sum or difference over the
  natural numbers and does not carry into the flag. -/
  noCarry : ∀ tid call rest cur, (config.locals tid).calls = call :: rest →
    (config.locals tid).pc = .commit cur →
    (call.op.apply call.v (amountOf cur)).toNat =
        call.op.result call.v.toNat (amountOf cur).toNat ∧
      hasWaiter (call.op.apply call.v (amountOf cur)) = false
  settled : ∀ entry ∈ config.shared.log, ∀ result, entry.event = .returned result →
    commits entry.thread entry.index config.shared.log = if result then 1 else 0

/-- Token conservation, for any number of threads and any interleaving. -/
theorem tokens_conserved (max : U32) (config : Threads ι (Shared S R ι) Thread)
    (reachable : (threadSystem S R ι max SmallCall).Reachable config) :
    TokensConserved max config := by
  obtain ⟨balanced, accounted⟩ := accounts_of_reachable reachable
  refine ⟨balanced.max_eq, ?_, ?_, ?_, ?_⟩
  · have balance := balanced.balance
    omega
  · rw [balanced.max_eq]
    exact balanced.bounded
  · intro tid call rest cur callsEq pcEq
    have valid := (accounted tid).valid call rest callsEq
    rw [pcEq] at valid
    have small := (accounted tid).small call (by rw [callsEq]; simp)
    obtain ⟨stored, flag, _⟩ := commit_spec (amountOf_lt max) small valid
    exact ⟨stored, flag⟩
  · intro entry member result eventEq
    rw [((accounted entry.thread).past entry member rfl result eventEq).2]
    cases result <;> rfl

/-- A producer of five tokens, then a consumer that takes three and times out
waiting for five more. -/
def produceConsume : Fin 2 → List Call
  | 0 => [produce 5 1 none]
  | 1 => [consume 3 1 none, consume 5 1 (some 10000000)]

/-- One call after the other, up to the answer to the timeout. -/
def produceConsumeRun : List (Fin 2 × Action (Fin 2)) :=
  let run := fun tid => (tid, (⟨0, .run⟩ : Action (Fin 2)))
  List.replicate 3 (run 0) ++ List.replicate 7 (run 1) ++ [(1, ⟨10000000, .timeout⟩), run 1]

theorem tokens_conserved_produceConsume :
    ∃ config, (threadSystem 256 1024 (Fin 2) 10 SmallCall).exec
        (start 256 1024 10 produceConsume) produceConsumeRun = some config ∧
      TokensConserved 10 config := by
  have initial : (threadSystem 256 1024 (Fin 2) 10 SmallCall).init
      (start 256 1024 10 produceConsume) := by
    apply start_init
    simp only [SmallCall]
    decide
  obtain ⟨config, run, reachable⟩ :=
    System.exists_exec_of_isSome produceConsumeRun initial (by decide)
  exact ⟨config, run, tokens_conserved 10 config reachable⟩

end Schtest.Semaphore
