import Schtest.Sched.Stats
import Mathlib.Algebra.BigOperators.Group.List.Basic
import Mathlib.Data.List.Forall2

/-!
# Scheduler statistics of a process

`Sched::get_process_thread_stats` lists the threads of a process and adds up what
`get_thread_stats` gives for each.  The counters wrap at 64 bits, as they do in a
release build; a `Duration` is any number of nanoseconds.
-/

namespace Schtest.Sched

open Schtest.Topology

variable {F : Type}

/-! ## The source -/

/-- The statistics of a thread, or of the threads of a process. -/
structure SchedStats (F : Type) where
  /-- Durations are in nanoseconds. -/
  systemTime : Nat
  userTime : Nat
  totalTime : Nat
  fields : Fields F

/-- What opening and reading `/proc/<tid>/sched` gives. -/
inductive SchedFile
  | missing
  | unreadable
  | text (content : List Char)

/-- The ticks in `/proc/<tid>/stat`. -/
structure Stat where
  utime : U64
  stime : U64

/-- The answers of `procfs` about one thread. -/
inductive ProcStat
  | noProcess
  | unreadable
  | stat (stat : Stat)

/-- What `get_thread_stats` looks at. -/
structure ThreadFiles where
  sched : SchedFile
  procStat : ProcStat

/-- The thread's directory in `/proc`. -/
def tidVal : Option Int → String
  | some tid => toString tid
  | none => "self"

/-- How `get_thread_stats` reads the values of type `f64`, and the nanoseconds of
`Duration::from_secs_f64(ticks as f64 / ticks_per_sec as f64)`. -/
structure Floats (F : Type) where
  parse : List Char → Option F
  duration : U64 → Nat

section Thread

variable [Zero F] (floats : Floats F)

/-- `get_thread_stats(tid)`. -/
def getThreadStats (tid : Option Int) (files : ThreadFiles) : Except String (SchedStats F) :=
  let path := "/proc/" ++ tidVal tid ++ "/sched"
  match files.sched with
  | .missing => .error ("Failed to open scheduler stats file: " ++ path)
  | .unreadable => .error ("Failed to read scheduler stats file: " ++ path)
  | .text content =>
      match files.procStat with
      | .noProcess => .error "Failed to get process information"
      | .unreadable => .error "Failed to read process stat information"
      | .stat stat =>
          let systemTime := floats.duration stat.stime
          let userTime := floats.duration stat.utime
          .ok ⟨systemTime, userTime, systemTime + userTime, readFields floats.parse content⟩

/-- `SchedStats::default()`. -/
def SchedStats.default : SchedStats F :=
  ⟨0, 0, 0, Field.default⟩

variable [Add F] [LT F] [DecidableLT F]

/-- Add the statistics of a thread to the aggregated ones. -/
def SchedStats.accumulate (aggregated stats : SchedStats F) : SchedStats F where
  systemTime := aggregated.systemTime + stats.systemTime
  userTime := aggregated.userTime + stats.userTime
  totalTime := aggregated.totalTime + stats.totalTime
  fields
    | .counter counter => aggregated.fields (.counter counter) + stats.fields (.counter counter)
    | .wait .waitSum => aggregated.fields (.wait .waitSum) + stats.fields (.wait .waitSum)
    | .wait .waitMax =>
        if aggregated.fields (.wait .waitMax) < stats.fields (.wait .waitMax) then
          stats.fields (.wait .waitMax)
        else aggregated.fields (.wait .waitMax)

/-- The loop over the entries of the task directory. -/
def aggregateThreads (read : Int → Except String (SchedStats F)) :
    List (Except String (List Char)) → SchedStats F → Except String (SchedStats F)
  | [], aggregated => .ok aggregated
  | entry :: rest, aggregated => do
      let fileName ← entry
      match parseI32 fileName with
      | none => aggregateThreads read rest aggregated
      | some tid => aggregateThreads read rest (aggregated.accumulate (← read tid))

/-- `get_process_thread_stats(pid)`; the task directory is `none` where it cannot be
read. -/
def getProcessThreadStats (pid : Option Int)
    (taskDir : Option (List (Except String (List Char)))) (threads : Int → ThreadFiles) :
    Except String (SchedStats F) :=
  match taskDir with
  | none => .error ("Failed to read task directory: " ++ "/proc/" ++ tidVal pid ++ "/task")
  | some entries =>
      aggregateThreads (fun tid => getThreadStats floats (some tid) (threads tid)) entries
        SchedStats.default

end Thread

/-! ## The threads that are read -/

/-- The entries that are numbers of threads. -/
def threadIds (entries : List (Except String (List Char))) : List Int :=
  entries.filterMap fun entry => entry.toOption.bind parseI32

theorem threadIds_skip {name : List Char} (skipped : parseI32 name = none)
    (rest : List (Except String (List Char))) : threadIds (.ok name :: rest) = threadIds rest := by
  simp [threadIds, Except.toOption, skipped]

theorem threadIds_thread {name : List Char} {tid : Int} (thread : parseI32 name = some tid)
    (rest : List (Except String (List Char))) :
    threadIds (.ok name :: rest) = tid :: threadIds rest := by
  simp [threadIds, Except.toOption, thread]

/-- What is read of a thread, where it can be read. -/
def readOr [Zero F] (read : Int → Except String (SchedStats F)) (tid : Int) : SchedStats F :=
  match read tid with
  | .ok stats => stats
  | .error _ => SchedStats.default

section Loop

variable [Zero F] [Add F] [LT F] [DecidableLT F] {read : Int → Except String (SchedStats F)}

/-- The loop succeeds when every entry and every thread can be read. -/
theorem aggregateThreads_eq_ok_iff {entries : List (Except String (List Char))}
    {aggregated total : SchedStats F} :
    aggregateThreads read entries aggregated = .ok total ↔
      (∀ entry ∈ entries, ∃ name, entry = .ok name) ∧
      (∀ tid ∈ threadIds entries, ∃ each, read tid = .ok each) ∧
      total = ((threadIds entries).map (readOr read)).foldl SchedStats.accumulate aggregated := by
  induction entries generalizing aggregated with
  | nil =>
      simp only [aggregateThreads, threadIds, List.filterMap_nil, List.map_nil, List.foldl_nil,
        List.not_mem_nil, false_implies, implies_true, true_and, Except.ok.injEq]
      exact eq_comm
  | cons entry rest ih =>
      cases entry with
      | error text => simp [aggregateThreads, bind, Except.bind]
      | ok name =>
          have named : ∃ other, (Except.ok name : Except String (List Char)) = .ok other :=
            ⟨name, rfl⟩
          rw [List.forall_mem_cons]
          cases thread : parseI32 name with
          | none =>
              rw [threadIds_skip thread]
              simp only [aggregateThreads, bind, Except.bind, thread, ih, named, true_and]
          | some tid =>
              rw [threadIds_thread thread, List.forall_mem_cons, List.map_cons, List.foldl_cons]
              cases found : read tid with
              | error text => simp [aggregateThreads, bind, Except.bind, thread, found]
              | ok first =>
                  have taken : readOr read tid = first := by
                    rw [readOr, found]
                  have readable : ∃ each, (Except.ok first : Except String (SchedStats F)) =
                      .ok each := ⟨first, rfl⟩
                  simp only [aggregateThreads, bind, Except.bind, thread, found, ih, taken,
                    named, readable, true_and]

/-! ## What the sums are -/

/-- The statistics of a process as totals of those of its threads. -/
structure IsTotal (stats : List (SchedStats F)) (total : SchedStats F) : Prop where
  /-- The times of the threads, of which each is user and system time. -/
  systemTime : total.systemTime = (stats.map SchedStats.systemTime).sum
  userTime : total.userTime = (stats.map SchedStats.userTime).sum
  totalTime : (∀ each ∈ stats, each.totalTime = each.systemTime + each.userTime) →
    total.totalTime = total.systemTime + total.userTime
  /-- Every counter is the sum of the threads' counters. -/
  counter : ∀ counter, (total.fields (.counter counter)).toNat =
    (stats.map fun each => (each.fields (.counter counter)).toNat).sum % 2 ^ 64
  /-- The waits are added in the order of the threads: `f64` addition is no more
  than an operation. -/
  waitSum : total.fields (.wait .waitSum) =
    (stats.map fun each => (each.fields (.wait .waitSum) : F)).foldl (· + ·) 0
  /-- No thread has waited longer than `wait_max`, which is a wait of a thread. -/
  unexceeded : ∀ each ∈ stats,
    ¬total.fields (.wait .waitMax) < each.fields (.wait .waitMax)
  attained : total.fields (.wait .waitMax) = (0 : F) ∨
    ∃ each ∈ stats, total.fields (.wait .waitMax) = each.fields (.wait .waitMax)

omit [Zero F] in
/-- What one more thread adds, from the first thread on. -/
theorem foldl_accumulate_natural (measure : SchedStats F → Nat)
    (adds : ∀ aggregated each : SchedStats F,
      measure (aggregated.accumulate each) = measure aggregated + measure each)
    (aggregated : SchedStats F) (stats : List (SchedStats F)) :
    measure (stats.foldl SchedStats.accumulate aggregated) =
      measure aggregated + (stats.map measure).sum := by
  induction stats generalizing aggregated with
  | nil => rfl
  | cons first rest ih =>
      rw [List.foldl_cons, ih, adds, List.map_cons, List.sum_cons, Nat.add_assoc]

omit [Zero F] in
theorem foldl_accumulate_counter (counter : Counter) (aggregated : SchedStats F)
    (stats : List (SchedStats F)) :
    ((stats.foldl SchedStats.accumulate aggregated).fields (.counter counter)).toNat =
      ((aggregated.fields (.counter counter)).toNat +
        (stats.map fun each => (each.fields (.counter counter)).toNat).sum) % 2 ^ 64 := by
  induction stats generalizing aggregated with
  | nil => exact (Nat.mod_eq_of_lt (BitVec.isLt _)).symm
  | cons first rest ih =>
      have added : ((aggregated.accumulate first).fields (.counter counter)).toNat =
          ((aggregated.fields (.counter counter)).toNat +
            (first.fields (.counter counter)).toNat) % 2 ^ 64 :=
        BitVec.toNat_add _ _
      rw [List.foldl_cons, ih, added, List.map_cons, List.sum_cons, Nat.mod_add_mod,
        Nat.add_assoc]

/-- The value that a running maximum ends with: `f64` comparisons are a strict order,
in which a NaN is comparable to nothing. -/
structure Longest (start : F) (waits : List F) (longest : F) : Prop where
  grown : longest = start ∨ start < longest
  unexceeded : ∀ wait ∈ waits, ¬longest < wait
  attained : longest = start ∨ longest ∈ waits

omit [Zero F] [Add F] in
theorem longest_foldl (irrefl : ∀ a : F, ¬a < a) (trans : ∀ a b c : F, a < b → b < c → a < c)
    (start : F) (waits : List F) :
    Longest start waits (waits.foldl (fun a b => if a < b then b else a) start) := by
  induction waits generalizing start with
  | nil => exact ⟨Or.inl rfl, fun _ member => absurd member List.not_mem_nil, Or.inl rfl⟩
  | cons wait rest ih =>
      rw [List.foldl_cons]
      by_cases longer : start < wait
      · rw [if_pos longer]
        obtain ⟨grown, unexceeded, attained⟩ := ih wait
        constructor
        case grown =>
          rcases grown with same | more
          · right
            rwa [same]
          · exact Or.inr (trans _ _ _ longer more)
        case unexceeded =>
          refine List.forall_mem_cons.mpr ⟨fun less => ?_, unexceeded⟩
          rcases grown with same | more
          · rw [same] at less
            exact irrefl wait less
          · exact irrefl wait (trans _ _ _ more less)
        case attained =>
          right
          rcases attained with same | member
          · rw [same]
            exact List.mem_cons_self
          · exact List.mem_cons_of_mem _ member
      · rw [if_neg longer]
        obtain ⟨grown, unexceeded, attained⟩ := ih start
        constructor
        case grown => exact grown
        case unexceeded =>
          refine List.forall_mem_cons.mpr ⟨fun less => ?_, unexceeded⟩
          rcases grown with same | more
          · rw [same] at less
            exact longer less
          · exact longer (trans _ _ _ more less)
        case attained => exact attained.imp_right (List.mem_cons_of_mem _)

omit [Zero F] in
/-- A field of type `f64` is folded from thread to thread. -/
theorem foldl_accumulate_wait (wait : Wait) (op : F → F → F)
    (folds : ∀ aggregated each : SchedStats F, (aggregated.accumulate each).fields (.wait wait) =
      op (aggregated.fields (.wait wait)) (each.fields (.wait wait)))
    (aggregated : SchedStats F) (stats : List (SchedStats F)) :
    (stats.foldl SchedStats.accumulate aggregated).fields (.wait wait) =
      (stats.map fun each => (each.fields (.wait wait) : F)).foldl op
        (aggregated.fields (.wait wait)) := by
  rw [List.foldl_map]
  exact (List.foldl_hom (fun stats : SchedStats F => (stats.fields (.wait wait) : F))
    fun aggregated each => (folds aggregated each).symm).symm

theorem isTotal_foldl (irrefl : ∀ a : F, ¬a < a) (trans : ∀ a b c : F, a < b → b < c → a < c)
    (stats : List (SchedStats F)) :
    IsTotal stats (stats.foldl SchedStats.accumulate SchedStats.default) := by
  have natural (measure : SchedStats F → Nat) (start : measure SchedStats.default = 0)
      (adds : ∀ aggregated each : SchedStats F,
        measure (aggregated.accumulate each) = measure aggregated + measure each) :
      measure (stats.foldl SchedStats.accumulate SchedStats.default) =
        (stats.map measure).sum := by
    rw [foldl_accumulate_natural measure adds, start, Nat.zero_add]
  have systemTime := natural SchedStats.systemTime rfl fun _ _ => rfl
  have userTime := natural SchedStats.userTime rfl fun _ _ => rfl
  have totalTime := natural SchedStats.totalTime rfl fun _ _ => rfl
  have longest := longest_foldl irrefl trans (0 : F)
    (stats.map fun each => each.fields (.wait .waitMax))
  have waitMax := foldl_accumulate_wait .waitMax (fun a b : F => if a < b then b else a)
    (fun _ _ => rfl) SchedStats.default stats
  constructor
  case systemTime => exact systemTime
  case userTime => exact userTime
  case totalTime =>
    intro each
    rw [systemTime, userTime, totalTime, ← List.sum_map_add]
    exact congrArg List.sum (List.map_congr_left each)
  case counter =>
    intro counter
    rw [foldl_accumulate_counter]
    exact congrArg (· % 2 ^ 64) (Nat.zero_add _)
  case waitSum => exact foldl_accumulate_wait .waitSum (· + ·) (fun _ _ => rfl) _ stats
  case unexceeded =>
    intro each member
    rw [waitMax]
    exact longest.unexceeded _ (List.mem_map_of_mem member)
  case attained =>
    rw [waitMax]
    refine longest.attained.imp_right fun member => ?_
    obtain ⟨each, inside, same⟩ := List.mem_map.mp member
    exact ⟨each, inside, same.symm⟩

end Loop

/-! ## The process -/

theorem totalTime_of_getThreadStats [Zero F] {floats : Floats F} {tid : Option Int}
    {files : ThreadFiles} {stats : SchedStats F}
    (returns : getThreadStats floats tid files = .ok stats) :
    stats.totalTime = stats.systemTime + stats.userTime := by
  unfold getThreadStats at returns
  dsimp only at returns
  split at returns <;> try contradiction
  split at returns <;> try contradiction
  cases returns
  rfl

section Process

variable [Zero F] [Add F] [LT F] [DecidableLT F] {floats : Floats F} {pid : Option Int}
  {threads : Int → ThreadFiles}

theorem getProcessThreadStats_eq_ok_iff {entries : List (Except String (List Char))}
    {total : SchedStats F} :
    getProcessThreadStats floats pid (some entries) threads = .ok total ↔
      (∀ entry ∈ entries, ∃ name, entry = .ok name) ∧
      (∀ tid ∈ threadIds entries, ∃ each,
        getThreadStats floats (some tid) (threads tid) = .ok each) ∧
      total = ((threadIds entries).map (readOr fun tid =>
        getThreadStats floats (some tid) (threads tid))).foldl SchedStats.accumulate
          SchedStats.default :=
  aggregateThreads_eq_ok_iff

/-- The statistics of a process with this task directory. -/
structure AddsUp (floats : Floats F) (pid : Option Int) (threads : Int → ThreadFiles)
    (entries : List (Except String (List Char))) : Prop where
  /-- They are returned when every entry and the files of every thread can be read. -/
  returns : (∃ total, getProcessThreadStats floats pid (some entries) threads = .ok total) ↔
    (∀ entry ∈ entries, ∃ name, entry = .ok name) ∧
      ∀ tid ∈ threadIds entries, ∃ each,
        getThreadStats floats (some tid) (threads tid) = .ok each
  /-- They are the totals of what is read of each thread, and total time is system and user
  time. -/
  totals : ∀ total, getProcessThreadStats floats pid (some entries) threads = .ok total →
    IsTotal ((threadIds entries).map (readOr fun tid =>
      getThreadStats floats (some tid) (threads tid))) total ∧
    total.totalTime = total.systemTime + total.userTime
  /-- The order of the directory matters neither to the times nor to the counters. -/
  unordered : ∀ total entries' total',
    getProcessThreadStats floats pid (some entries) threads = .ok total →
    List.Perm entries entries' →
    getProcessThreadStats floats pid (some entries') threads = .ok total' →
    total.systemTime = total'.systemTime ∧ total.userTime = total'.userTime ∧
      total.totalTime = total'.totalTime ∧
      ∀ counter, total.fields (.counter counter) = total'.fields (.counter counter)

theorem isTotal_of_returns (irrefl : ∀ a : F, ¬a < a)
    (trans : ∀ a b c : F, a < b → b < c → a < c) {entries : List (Except String (List Char))}
    {total : SchedStats F}
    (returned : getProcessThreadStats floats pid (some entries) threads = .ok total) :
    IsTotal ((threadIds entries).map (readOr fun tid =>
      getThreadStats floats (some tid) (threads tid))) total ∧
    total.totalTime = total.systemTime + total.userTime := by
  obtain ⟨_, readable, rfl⟩ := getProcessThreadStats_eq_ok_iff.mp returned
  have isTotal := isTotal_foldl irrefl trans ((threadIds entries).map (readOr fun tid =>
    getThreadStats floats (some tid) (threads tid)))
  refine ⟨isTotal, isTotal.totalTime fun each member => ?_⟩
  obtain ⟨tid, listed, rfl⟩ := List.mem_map.mp member
  obtain ⟨stats, found⟩ := readable tid listed
  rw [readOr, found]
  exact totalTime_of_getThreadStats found

omit [DecidableLT F] in
/-- The same threads in another order have the same totals. -/
theorem IsTotal.perm {stats stats' : List (SchedStats F)} {total total' : SchedStats F}
    (isTotal : IsTotal stats total) (isTotal' : IsTotal stats' total')
    (same : List.Perm stats stats') :
    total.systemTime = total'.systemTime ∧ total.userTime = total'.userTime ∧
      ∀ counter, total.fields (.counter counter) = total'.fields (.counter counter) := by
  refine ⟨?_, ?_, fun counter => BitVec.eq_of_toNat_eq ?_⟩
  · rw [isTotal.systemTime, isTotal'.systemTime, (same.map _).sum_eq]
  · rw [isTotal.userTime, isTotal'.userTime, (same.map _).sum_eq]
  · rw [isTotal.counter, isTotal'.counter, (same.map _).sum_eq]

theorem process_stats_add_up (irrefl : ∀ a : F, ¬a < a)
    (trans : ∀ a b c : F, a < b → b < c → a < c) (floats : Floats F) (pid : Option Int)
    (threads : Int → ThreadFiles) (entries : List (Except String (List Char))) :
    AddsUp floats pid threads entries := by
  constructor
  case returns =>
    constructor
    · rintro ⟨total, returned⟩
      obtain ⟨named, readable, _⟩ := getProcessThreadStats_eq_ok_iff.mp returned
      exact ⟨named, readable⟩
    · rintro ⟨named, readable⟩
      exact ⟨_, getProcessThreadStats_eq_ok_iff.mpr ⟨named, readable, rfl⟩⟩
  case totals => exact fun total => isTotal_of_returns irrefl trans
  case unordered =>
    intro total entries' total' returned order returned'
    obtain ⟨isTotal, sum⟩ := isTotal_of_returns irrefl trans returned
    obtain ⟨isTotal', sum'⟩ := isTotal_of_returns irrefl trans returned'
    have listed : List.Perm (threadIds entries) (threadIds entries') := order.filterMap _
    obtain ⟨systemTime, userTime, counter⟩ := isTotal.perm isTotal' (listed.map _)
    refine ⟨systemTime, userTime, ?_, counter⟩
    rw [sum, sum', systemTime, userTime]

end Process

/-- Two threads, of which the second has lost a switch to a line that does not parse. -/
def twoThreads : Int → ThreadFiles
  | 1 => ⟨.text "nr_yields : 3\nwait_max : 8\n".toList, .stat ⟨20, 1⟩⟩
  | _ => ⟨.text "wait_max:5\nnr_yields:4\nnr_switches:-1\n".toList, .stat ⟨0, 2⟩⟩

/-- Ten milliseconds a tick, and whole numbers for `f64`. -/
def wholeNumbers : Floats Nat where
  parse := parseDigits
  duration ticks := ticks.toNat * 10000000

theorem process_stats_add_up_twoThreads :
    AddsUp wholeNumbers (some 1) twoThreads [.ok ['1'], .ok ['.'], .ok ['2']] :=
  process_stats_add_up Nat.lt_irrefl (fun _ _ _ => Nat.lt_trans) wholeNumbers (some 1) twoThreads
    [.ok ['1'], .ok ['.'], .ok ['2']]

example : (getProcessThreadStats wholeNumbers (some 1) (some [.ok ['1'], .ok ['.'], .ok ['2']])
    twoThreads).toOption.map (fun total =>
      (total.totalTime, total.fields (.counter .nrYields), total.fields (.wait .waitMax))) =
    some (230000000, 7, 8) := by
  decide

end Schtest.Sched
