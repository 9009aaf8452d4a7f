import Schtest.Semaphore.Amount
import Schtest.Semaphore.Threads

/-!
# The capacity check

`produce` adds its argument to the amount in 32 bits, once for the check and
once for the value it stores.  Arguments are arbitrary here.  The amount stays
within the bound all the same, and for an amount within the bound a sum that
wraps is less than the amount, so it passes the check.
-/

namespace Schtest.Semaphore

open Schtest.Transition

universe u

variable {S R : Nat} {ι : Type u} [DecidableEq ι]

/-! ## One round of `produce` -/

/-- The sum of an amount and an argument is a `u32`. -/
def Fits (v cur : U32) : Prop :=
  (amountOf cur).toNat + v.toNat < 2 ^ 32

instance (v cur : U32) : Decidable (Fits v cur) :=
  Nat.decLt _ _

/-- On this word `produce` computes as with natural numbers. -/
structure Immune (max v cur : U32) : Prop where
  updates : Op.produce.admits max v (amountOf cur) = true →
    (amountOf cur).toNat + v.toNat ≤ max.toNat ∧
      (amountOf (Op.produce.apply v (amountOf cur))).toNat = (amountOf cur).toNat + v.toNat
  refuses : max.toNat < v.toNat → Op.produce.admits max v (amountOf cur) = false
  raises : Op.produce.admits max v (amountOf cur) = true →
    (amountOf cur).toNat ≤ (amountOf (Op.produce.apply v (amountOf cur))).toNat

theorem Fits.admits_iff {max v cur : U32} (fits : Fits v cur) :
    Op.produce.admits max v (amountOf cur) = true ↔
      (amountOf cur).toNat + v.toNat ≤ max.toNat :=
  Op.admits_iff fits

theorem Fits.immune {max v cur : U32} (fits : Fits v cur) (maxSmall : max.toNat < 2 ^ 31) :
    Immune max v cur := by
  have updates : Op.produce.admits max v (amountOf cur) = true →
      (amountOf cur).toNat + v.toNat ≤ max.toNat ∧
        (amountOf (Op.produce.apply v (amountOf cur))).toNat =
          (amountOf cur).toNat + v.toNat := by
    intro admitted
    have enough := fits.admits_iff.mp admitted
    have stored := Op.apply_toNat fits admitted
    have small : (Op.produce.apply v (amountOf cur)).toNat < 2 ^ 31 := by
      rw [stored]
      exact lt_of_le_of_lt enough maxSmall
    rw [amountOf_of_lt small]
    exact ⟨enough, stored⟩
  constructor
  case updates => exact updates
  case refuses =>
    intro more
    rw [Bool.eq_false_iff]
    intro admitted
    have enough := (updates admitted).1
    omega
  case raises =>
    intro admitted
    rw [(updates admitted).2]
    exact Nat.le_add_right _ _

/-- A sum that wraps is less than the amount, hence admitted. -/
theorem admits_of_not_fits {max v cur : U32} (wraps : ¬ Fits v cur)
    (bounded : (amountOf cur).toNat ≤ max.toNat) :
    Op.produce.admits max v (amountOf cur) = true := by
  have small := v.isLt
  have amountSmall := amountOf_lt cur
  unfold Fits at wraps
  rw [Op.admits, decide_eq_true_iff, BitVec.le_def, BitVec.toNat_add]
  omega

theorem immune_iff {max v cur : U32} (maxSmall : max.toNat < 2 ^ 31)
    (bounded : (amountOf cur).toNat ≤ max.toNat) : Immune max v cur ↔ Fits v cur := by
  constructor
  case mp =>
    intro immune
    by_contra wraps
    have enough := (immune.updates (admits_of_not_fits wraps bounded)).1
    unfold Fits at wraps
    omega
  case mpr => exact fun fits => fits.immune maxSmall

/-! ## Every reachable word -/

/-- What an admitted exchange stores is within the bound, wrapped or not. -/
theorem Op.apply_le {op : Op} {max v amount : U32} (bounded : amount.toNat ≤ max.toNat)
    (admitted : op.admits max v amount = true) : (op.apply v amount).toNat ≤ max.toNat := by
  cases op with
  | consume =>
      have enough : v ≤ amount := by simpa [admits] using admitted
      rw [apply, BitVec.toNat_sub_of_le enough]
      exact (Nat.sub_le _ _).trans bounded
  | produce =>
      have enough : amount + v ≤ max := by simpa [admits] using admitted
      exact enough

/-- The amount stays within the bound of the semaphore. -/
structure Bounded (max : U32) (shared : Shared S R ι) : Prop where
  max_eq : shared.sem.max = amountOf max
  bounded : (amountOf shared.sem.count).toNat ≤ (amountOf max).toNat

theorem Bounded.of_effect {max : U32} {shared sharedNext : Shared S R ι}
    (bounded : Bounded max shared) {call : Call} {tid : ι} {pc next : Pc} {event : Option Event}
    (effect : Effect call tid shared.sem pc sharedNext.sem next event) :
    Bounded max sharedNext := by
  constructor
  case max_eq => exact effect.max_eq.trans bounded.max_eq
  case bounded =>
    rcases effect.commit_or_quiet with ⟨_, admitted, stored⟩ | ⟨_, same⟩
    · rw [bounded.max_eq] at admitted
      have within := Op.apply_le bounded.bounded admitted
      have small := lt_of_le_of_lt within (amountOf_lt max)
      rw [stored, amountOf_of_lt small]
      exact within
    · rw [same]
      exact bounded.bounded

/-- The exchange that a `produce` is about to make, if it succeeds, does not wrap. -/
def FittingExchange (config : Threads ι (Shared S R ι) Thread) (action : ι × Action ι) : Prop :=
  ∀ call rest cur, (config.locals action.1).calls = call :: rest → call.op = .produce →
    (config.locals action.1).pc = .commit cur → config.shared.sem.count = cur → Fits call.v cur

/-- Whether the exchange fits, by the state of the acting thread. -/
def fittingExchange (config : Threads ι (Shared S R ι) Thread) (action : ι × Action ι) : Bool :=
  match (config.locals action.1).calls, (config.locals action.1).pc with
  | call :: _, .commit cur =>
      decide (call.op = .produce → config.shared.sem.count = cur → Fits call.v cur)
  | _, _ => true

omit [DecidableEq ι] in
theorem fittingExchange_iff {config : Threads ι (Shared S R ι) Thread} {action : ι × Action ι} :
    fittingExchange config action = true ↔ FittingExchange config action := by
  unfold fittingExchange FittingExchange
  split
  · rename_i call rest cur callsEq pcEq
    rw [decide_eq_true_iff, callsEq, pcEq]
    constructor
    · intro fits _ _ _ sameCalls isProduce samePc count
      cases sameCalls
      cases samePc
      exact fits isProduce count
    · intro fits isProduce count
      exact fits call rest cur rfl isProduce rfl count
  · rename_i notCommitting
    constructor
    · intro _ call rest cur callsEq _ pcEq _
      exact absurd pcEq (notCommitting call rest cur callsEq)
    · exact fun _ => rfl

instance (config : Threads ι (Shared S R ι) Thread) (action : ι × Action ι) :
    Decidable (FittingExchange config action) :=
  decidable_of_iff _ fittingExchange_iff

/-- A `produce` that has made its exchange asked for no more than the bound. -/
def Thread.Within (max : U32) (thread : Thread) : Prop :=
  ∀ call rest, thread.calls = call :: rest → call.op = .produce →
    0 < thread.pc.stage.commits → call.v.toNat ≤ (amountOf max).toNat

/-- The words a thread has loaded are valid, under any condition on the steps. -/
theorem bounded_of_reachable {max : U32} {config : Threads ι (Shared S R ι) Thread}
    (reachable : (threadSystem S R ι max fun _ => True).Reachable config) :
    Bounded max config.shared ∧ ∀ tid, (config.locals tid).Valid (amountOf max) := by
  apply Program.noninterference (Bounded max) (fun _ _ thread => thread.Valid (amountOf max))
    _ _ _ _ reachable
  · rintro shared ⟨readings, _, semEq, _⟩
    constructor
    case max_eq => rw [semEq]; rfl
    case bounded =>
      rw [semEq, new_amount]
      exact Nat.zero_le _
  · intro tid shared thread _ fresh
    exact .of_load fresh.2.1
  · intro config tid action shared next _ bounded valid step
    have kept := Thread.step_valid (by rw [bounded.max_eq]; exact valid tid) step
    rw [bounded.max_eq] at kept
    constructor
    · obtain ⟨call, rest, callsEq, ⟨_, _, _, rfl⟩ | ⟨out, callStep, _, rfl⟩⟩ :=
        Thread.step_cases step
      · exact ⟨bounded.max_eq, bounded.bounded⟩
      · have validCall := valid tid call rest callsEq
        rw [← bounded.max_eq] at validCall
        exact bounded.of_effect (Call.effect_of_step validCall callStep).1
    · exact kept.2
  · intro config tid action shared next other _ _ _ valid _
    exact valid other

/-! ## What returns -/

/-- Where every exchange fits, a `produce` that returns `true` asked for no more than the
bound. -/
theorem within_of_reachable {max : U32} {config : Threads ι (Shared S R ι) Thread}
    (reachable :
      (threadSystem S R ι max fun _ => True).ReachableUnder FittingExchange config) :
    ∀ tid, (config.locals tid).Within max := by
  apply System.ReachableUnder.invariant
    (fun config => ∀ tid, (config.locals tid).Within max) _ _ reachable
  · intro config initial tid call rest _ _ committed
    rw [(initial.2 tid).2.1] at committed
    contradiction
  · rintro config ⟨tid, action⟩ next before fitting step within other
    obtain ⟨bounded, valid⟩ := bounded_of_reachable before.reachable
    obtain ⟨shared, localNext, threadStep, rfl⟩ := Program.system_step_eq_some_iff.mp step
    by_cases same : other = tid
    · subst same
      simp only [Function.update_self]
      obtain ⟨call, rest, callsEq, ⟨_, _, rfl, _⟩ | ⟨out, callStep, rfl, _⟩⟩ :=
        Thread.step_cases threadStep
      · intro _ _ _ _ committed
        contradiction
      · intro _ _ sameCalls isProduce committed
        cases sameCalls
        have validCall := valid other call rest callsEq
        rw [← bounded.max_eq] at validCall
        have effect := (Call.effect_of_step validCall callStep).1
        rw [effect.commits_eq] at committed
        rcases effect.commit_or_quiet with ⟨exchanged, admitted, _⟩ | ⟨quiet, _⟩
        · have atCommit := Call.source_of_step callStep exchanged
          have fits := fitting call rest _ callsEq isProduce atCommit rfl
          rw [isProduce, bounded.max_eq] at admitted
          have enough := fits.admits_iff.mp admitted
          omega
        · rw [if_neg quiet, Nat.add_zero] at committed
          exact within other call rest callsEq isProduce committed
    · simp only [Function.update_of_ne same]
      exact within other

/-- On every reachable word the check of `produce` is immune to exactly the arguments whose
sum with the amount fits, and where every exchange fits no `produce` beyond the bound returns
`true`. -/
theorem produce_immune (max : U32) :
    (∀ config, (threadSystem S R ι max fun _ => True).Reachable config →
      ∀ v, Immune config.shared.sem.max v config.shared.sem.count ↔
        Fits v config.shared.sem.count) ∧
    ∀ config, (threadSystem S R ι max fun _ => True).ReachableUnder FittingExchange config →
      ∀ tid call rest, (config.locals tid).calls = call :: rest → call.op = .produce →
        config.shared.sem.max.toNat < call.v.toNat → (config.locals tid).pc ≠ .returned true := by
  constructor
  · intro config reachable v
    obtain ⟨bounded, _⟩ := bounded_of_reachable reachable
    rw [bounded.max_eq]
    exact immune_iff (amountOf_lt max) bounded.bounded
  · intro config reachable tid call rest callsEq isProduce more returned
    obtain ⟨bounded, _⟩ := bounded_of_reachable reachable.reachable
    have within := within_of_reachable reachable tid call rest callsEq isProduce
    rw [returned] at within
    rw [bounded.max_eq] at more
    have enough := within Nat.zero_lt_one
    omega

/-- One token, then almost as many as there are words. -/
def produceTwice : Fin 1 → List Call
  | 0 => [produce 1 1 none, produce 0xffffffff 1 none]

/-- The first call returns, and the second makes its exchange. -/
def produceTwiceRun : List (Fin 1 × Action (Fin 1)) :=
  List.replicate 5 (0, ⟨0, .run⟩)

/-- A word that is not immune is reachable, and so is a call beyond the bound that took the
token away and returned `true`. -/
theorem produce_wraps :
    (∃ config, (threadSystem 256 1024 (Fin 1) 10 fun _ => True).Reachable config ∧
      ¬ Immune config.shared.sem.max 0xffffffff config.shared.sem.count) ∧
    ∃ config, (threadSystem 256 1024 (Fin 1) 10 fun _ => True).Reachable config ∧
      config.shared.sem.count = 0 ∧ (config.locals 0).calls = [produce 0xffffffff 1 none] ∧
        (config.locals 0).pc = .returned true := by
  have initial : (threadSystem 256 1024 (Fin 1) 10 fun _ => True).init
      (start 256 1024 10 produceTwice) := start_init fun _ _ _ => trivial
  constructor
  · obtain ⟨config, reachable, one⟩ := System.exists_reachable_of_exec
      (List.replicate 3 ((0 : Fin 1), (⟨0, .run⟩ : Action (Fin 1))))
      (fun config : Threads (Fin 1) (Shared 256 1024 (Fin 1)) Thread =>
        decide (config.shared.sem.count = 1 ∧ config.shared.sem.max = 10))
      initial (by decide)
    obtain ⟨count, bound⟩ := of_decide_eq_true one
    constructor
    constructor
    · exact reachable
    · rw [count, bound]
      intro immune
      exact absurd (immune.refuses (by decide)) (by decide)
  · obtain ⟨config, reachable, wrapped⟩ := System.exists_reachable_of_exec produceTwiceRun
      (fun config : Threads (Fin 1) (Shared 256 1024 (Fin 1)) Thread =>
        decide (config.shared.sem.count = 0 ∧
          (config.locals 0).calls = [produce 0xffffffff 1 none] ∧
          (config.locals 0).pc = .returned true))
      initial (by decide)
    exact ⟨config, reachable, of_decide_eq_true wrapped⟩

/-- One token, then nine more. -/
def produceTen : Fin 1 → List Call
  | 0 => [produce 1 1 none, produce 9 1 none]

theorem produce_immune_produceTen :
    ∃ config, (threadSystem 256 1024 (Fin 1) 10 fun _ => True).execUnder FittingExchange
        (start 256 1024 10 produceTen) produceTwiceRun = some config ∧
      (∀ v, Immune config.shared.sem.max v config.shared.sem.count ↔
        Fits v config.shared.sem.count) ∧
      ∀ tid call rest, (config.locals tid).calls = call :: rest → call.op = .produce →
        config.shared.sem.max.toNat < call.v.toNat → (config.locals tid).pc ≠ .returned true := by
  have initial : (threadSystem 256 1024 (Fin 1) 10 fun _ => True).init
      (start 256 1024 10 produceTen) := start_init fun _ _ _ => trivial
  obtain ⟨config, run, reachable⟩ :=
    System.exists_execUnder_of_isSome FittingExchange produceTwiceRun initial (by decide)
  exact ⟨config, run, (produce_immune 10).1 config reachable.reachable,
    (produce_immune 10).2 config reachable⟩

end Schtest.Semaphore
