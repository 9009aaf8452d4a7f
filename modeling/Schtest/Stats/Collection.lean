import Schtest.Stats.Reservoir
import Schtest.Collections.Update
import Schtest.Transition.Core

/-!
# Collecting the samples of a reservoir

`sample` claims an index with one atomic operation and writes its slot with
another, so that calls of several threads interleave.  `collect_wake_stats`
reads the claimed slots in the loop of `add_all` and resets the count.  The
benchmarks collect between two rounds: no call is in progress when a collection
starts, and none starts before it has ended.  Both are needed: a call that starts
during a collection loses its item, or leaves it to the next one.
-/

namespace Schtest.Stats

open Schtest.Collections Schtest.Transition

universe u v

/-! ## The two halves of a call -/

namespace ReservoirSampler

variable {T : Type u} {N : Nat}

/-- `self.count.fetch_add(1)`. -/
def claim (sampler : ReservoirSampler T N) : ReservoirSampler T N :=
  { sampler with count := (sampler.count + 1) % USIZE }

/-- The slot of a call with this index. -/
def place (index : Nat) (draw : Fin N) : Fin N :=
  if room : index < N then ⟨index, room⟩ else draw

theorem place_val {index : Nat} (room : index < N) (draw : Fin N) :
    (place index draw).val = index := by
  rw [place, dif_pos room]

/-- The write of an item whose `fetch_add` returned this index. -/
def write (sampler : ReservoirSampler T N) (index : Nat) (item : T) (draw : Fin N) :
    ReservoirSampler T N :=
  { sampler with samples := Function.update sampler.samples (place index draw) (some item) }

/-- A call that is not interrupted claims the count and writes. -/
theorem sample_eq_write_claim (sampler : ReservoirSampler T N) (item : T) (draw : Fin N) :
    sampler.sample item (fun _ => draw) = sampler.claim.write sampler.count item draw := by
  rw [sample, dif_neg (Fin.pos draw).ne']
  rfl

/-- The slots in the order in which `add_all` reads them. -/
def slots (sampler : ReservoirSampler T N) : List (Option T) :=
  List.ofFn sampler.samples

theorem length_slots (sampler : ReservoirSampler T N) : sampler.slots.length = N :=
  List.length_ofFn

theorem getElem?_slots (sampler : ReservoirSampler T N) (place : Fin N) :
    sampler.slots[place.val]? = some (sampler.samples place) := by
  simp [slots]

end ReservoirSampler

/-! ## The users of a reservoir -/

/-- Where `collect_wake_stats` is. -/
inductive Collector (T : Type u)
  | idle
  /-- In the loop of `add_all`, with the values read so far. -/
  | addAll (limit : Nat) (values : List (Option T))
  /-- `add_all` has merged these values; about to reset. -/
  | reset (values : List (Option T))
  deriving DecidableEq, Repr

/-- The collector has read a prefix of the claimed slots, or all of them. -/
def Collector.Reads {T : Type u} {N : Nat} (reservoir : ReservoirSampler T N) :
    Collector T → Prop
  | .idle => True
  | .addAll limit values =>
      limit = min reservoir.count N ∧ values.length ≤ limit ∧
        values = reservoir.slots.take values.length
  | .reset values => values = reservoir.slots.take (min reservoir.count N)

/-- A reservoir, the calls in progress with their claimed indices and items, and
the collector.  The items of all calls since the last reset and the last write
into each slot since then are recorded for the proofs; no step reads them. -/
structure Sampling (ι : Type v) (T : Type u) (N : Nat) where
  reservoir : ReservoirSampler T N
  calls : ι → Option (Nat × T)
  collector : Collector T
  sampled : List T
  written : Fin N → Option T

namespace Sampling

/-- The steps of the threads and of the collector. -/
inductive Action (ι : Type v) (T : Type u) (N : Nat)
  /-- A thread calls `sample(item)`, up to its `fetch_add`. -/
  | sample (tid : ι) (item : T)
  /-- The write that ends a call, with the outcome of `gen_range(0..N)`. -/
  | write (tid : ι) (draw : Fin N)
  /-- `collect_wake_stats` loads the count. -/
  | addAll
  /-- The loop of `add_all` reads a slot, or ends. -/
  | read
  | reset
  deriving DecidableEq, Repr

variable {ι : Type v} {T : Type u} {N : Nat} [DecidableEq ι]

/-- One step of a thread or of the collector. -/
def step (state : Sampling ι T N) : Action ι T N → Option (Sampling ι T N)
  | .sample tid item =>
      if (state.calls tid).isSome then none
      else if N = 0 then some state
      else some { state with
        reservoir := state.reservoir.claim
        calls := Function.update state.calls tid (some (state.reservoir.count, item))
        sampled := state.sampled ++ [item] }
  | .write tid draw =>
      (state.calls tid).map fun call =>
        let slot := ReservoirSampler.place call.1 draw
        { state with
          reservoir := state.reservoir.write call.1 call.2 draw
          calls := Function.update state.calls tid none
          written := Function.update state.written slot (some call.2) }
  | .addAll =>
      match state.collector with
      | .idle => some { state with collector := .addAll (min state.reservoir.count N) [] }
      | _ => none
  | .read =>
      match state.collector with
      | .addAll limit values =>
          if values.length < limit then
            if inside : values.length < N then
              let value := state.reservoir.samples ⟨values.length, inside⟩
              some { state with collector := .addAll limit (values ++ [value]) }
            else none  -- out of bounds
          else some { state with collector := .reset values }
      | _ => none
  | .reset =>
      match state.collector with
      | .reset _ => some { state with
          reservoir := state.reservoir.reset
          collector := .idle
          sampled := []
          written := fun _ => none }
      | _ => none

/-- A new reservoir. -/
def initial : Sampling ι T N :=
  ⟨.new, fun _ => none, .idle, [], fun _ => none⟩

/-- All interleavings of the calls of all threads and of the collector. -/
def system (ι : Type v) (T : Type u) (N : Nat) [DecidableEq ι] :
    System (Sampling ι T N) (Action ι T N) where
  init state := state = initial
  step := step

/-- A collection starts when all calls have returned.  Calls may start while it
is in progress. -/
def StartsQuiet (state : Sampling ι T N) : Action ι T N → Prop
  | .addAll => ∀ tid, state.calls tid = none
  | _ => True

/-- A collection starts when all calls have returned, and no call starts before
the collection has ended. -/
def Quiet (state : Sampling ι T N) : Action ι T N → Prop
  | .sample _ _ => state.collector = .idle
  | .addAll => ∀ tid, state.calls tid = none
  | _ => True

/-! ## What the slots hold -/

/-- How the reservoir and the calls in progress account for the items sampled
since the last reset. -/
structure Accounted (state : Sampling ι T N) : Prop where
  count : state.reservoir.count = state.sampled.length % USIZE
  stored : ∀ place item, state.written place = some item →
    state.reservoir.samples place = some item ∧ item ∈ state.sampled
  pending : ∀ tid index item, state.calls tid = some (index, item) → item ∈ state.sampled
  /-- Whoever has claimed a slot has it written, or is about to write it. -/
  covered : ∀ place : Fin N, place.val < state.sampled.length →
    (∃ item, state.written place = some item) ∨
      ∃ tid item, state.calls tid = some (place.val, item)
  /-- While there is room, each item has the slot of its index. -/
  storedAt : state.sampled.length ≤ N → ∀ place item, state.written place = some item →
    state.sampled[place.val]? = some item
  pendingAt : state.sampled.length ≤ N → ∀ tid index item,
    state.calls tid = some (index, item) → state.sampled[index]? = some item

omit [DecidableEq ι] in
/-- Nothing is sampled after a reset. -/
theorem Accounted.of_reset {state : Sampling ι T N} (idle : ∀ tid, state.calls tid = none)
    (count : state.reservoir.count = 0) (none_ : state.sampled = [])
    (unwritten : ∀ place, state.written place = none) : state.Accounted := by
  constructor <;> simp [idle, count, none_, unwritten]

theorem getElem?_append_of_eq_some {α : Type u} {front back : List α} {index : Nat} {item : α}
    (here : front[index]? = some item) : (front ++ back)[index]? = some item := by
  rw [List.getElem?_append_left (List.getElem?_eq_some_iff.mp here).1]
  exact here

/-- A `fetch_add`. -/
theorem Accounted.sample {state next : Sampling ι T N} {tid : ι} {item : T} (small : N < USIZE)
    (accounted : state.Accounted) (step : state.step (.sample tid item) = some next) :
    next.Accounted := by
  simp only [Sampling.step] at step
  split at step
  · contradiction
  · split at step
    · cases step
      exact accounted
    · rename_i free _
      have fresh : state.calls tid = none := by simpa using free
      cases step
      have count := accounted.count
      constructor
      case count =>
        simp only [ReservoirSampler.claim, List.length_append, List.length_singleton, count,
          Nat.mod_add_mod]
      case stored =>
        intro place other here
        obtain ⟨holds, member⟩ := accounted.stored place other here
        exact ⟨holds, List.mem_append_left _ member⟩
      case pending =>
        intro tid' index other here
        rcases update_some_eq_some_iff.mp here with ⟨_, same⟩ | ⟨_, here⟩
        · cases same
          exact List.mem_append_right _ List.mem_cons_self
        · exact List.mem_append_left _ (accounted.pending tid' index other here)
      case covered =>
        intro place claimed
        rw [List.length_append, List.length_singleton] at claimed
        by_cases old : place.val < state.sampled.length
        · rcases accounted.covered place old with written | ⟨tid', other, here⟩
          · exact Or.inl written
          · have different : tid' ≠ tid := by
              rintro rfl
              rw [fresh] at here
              contradiction
            exact Or.inr ⟨tid', other, update_some_eq_some_iff.mpr (Or.inr ⟨different, here⟩)⟩
        · -- the index just claimed, since the count has not wrapped around
          have last : place.val = state.sampled.length := by omega
          have index : state.reservoir.count = place.val := by
            rw [count, ← last, Nat.mod_eq_of_lt (place.isLt.trans small)]
          exact Or.inr ⟨tid, item, update_some_eq_some_iff.mpr (Or.inl ⟨rfl, by rw [index]⟩)⟩
      case storedAt =>
        intro room place other here
        rw [List.length_append, List.length_singleton] at room
        exact getElem?_append_of_eq_some (accounted.storedAt (by omega) place other here)
      case pendingAt =>
        intro room tid' index other here
        rw [List.length_append, List.length_singleton] at room
        rcases update_some_eq_some_iff.mp here with ⟨_, same⟩ | ⟨_, here⟩
        · cases same
          rw [count, Nat.mod_eq_of_lt (by omega)]
          simp
        · exact getElem?_append_of_eq_some (accounted.pendingAt (by omega) tid' index other here)

/-- The write that ends a call. -/
theorem Accounted.write {state next : Sampling ι T N} {tid : ι} {draw : Fin N}
    (accounted : state.Accounted) (step : state.step (.write tid draw) = some next) :
    next.Accounted := by
  obtain ⟨⟨index, item⟩, call, rfl⟩ := Option.map_eq_some_iff.mp step
  constructor
  case count => exact accounted.count
  case stored =>
    intro place other here
    rcases update_some_eq_some_iff.mp here with ⟨rfl, rfl⟩ | ⟨elsewhere, here⟩
    · exact ⟨Function.update_self _ _ _, accounted.pending tid index item call⟩
    · obtain ⟨holds, member⟩ := accounted.stored place other here
      exact ⟨(Function.update_of_ne elsewhere _ _).trans holds, member⟩
  case pending =>
    intro tid' index' other here
    exact accounted.pending tid' index' other (update_none_eq_some_iff.mp here).2
  case covered =>
    intro place claimed
    by_cases same : place = ReservoirSampler.place index draw
    · exact Or.inl ⟨item, update_some_eq_some_iff.mpr (Or.inl ⟨same, rfl⟩)⟩
    · rcases accounted.covered place claimed with ⟨other, written⟩ | ⟨tid', other, here⟩
      · exact Or.inl ⟨other, update_some_eq_some_iff.mpr (Or.inr ⟨same, written⟩)⟩
      · have different : tid' ≠ tid := by
          rintro rfl
          rw [call] at here
          cases here
          exact same (Fin.ext (ReservoirSampler.place_val place.isLt draw).symm)
        exact Or.inr ⟨tid', other, update_none_eq_some_iff.mpr ⟨different, here⟩⟩
  case storedAt =>
    intro room place other here
    rcases update_some_eq_some_iff.mp here with ⟨rfl, rfl⟩ | ⟨_, here⟩
    · have holds := accounted.pendingAt room tid index item call
      have inside := (List.getElem?_eq_some_iff.mp holds).1
      rw [ReservoirSampler.place_val (inside.trans_le room)]
      exact holds
    · exact accounted.storedAt room place other here
  case pendingAt =>
    intro room tid' index' other here
    exact accounted.pendingAt room tid' index' other (update_none_eq_some_iff.mp here).2

omit [DecidableEq ι] in
/-- The collector does not touch the accounts. -/
theorem Accounted.setCollector {state : Sampling ι T N} (accounted : state.Accounted)
    (collector : Collector T) : Accounted { state with collector := collector } :=
  ⟨accounted.count, accounted.stored, accounted.pending, accounted.covered, accounted.storedAt,
    accounted.pendingAt⟩

/-! ## What a collection reads -/

/-- The invariant of the runs in which collections and calls do not overlap. -/
structure Sound (state : Sampling ι T N) : Prop where
  accounted : state.Accounted
  quiet : state.collector ≠ .idle → ∀ tid, state.calls tid = none
  reads : state.collector.Reads state.reservoir

omit [DecidableEq ι] in
theorem sound_initial : Sound (initial : Sampling ι T N) :=
  ⟨.of_reset (fun _ => rfl) rfl rfl fun _ => rfl, fun busy => absurd rfl busy, trivial⟩

/-- A step of the loop of `add_all`. -/
theorem Sound.read {state next : Sampling ι T N} (sound : state.Sound)
    (step : state.step .read = some next) : next.Sound := by
  simp only [Sampling.step] at step
  split at step
  · rename_i limit values collecting
    have quiet := sound.quiet (by simp [collecting])
    have reads := sound.reads
    rw [collecting] at reads
    obtain ⟨limitEq, bounded, prefix_⟩ := reads
    split at step
    · rename_i more
      split at step
      · rename_i inside
        cases step
        refine ⟨sound.accounted.setCollector _, fun _ => quiet, limitEq, ?_, ?_⟩
        · simpa using Nat.succ_le_of_lt more
        · have here := state.reservoir.getElem?_slots ⟨values.length, inside⟩
          rw [List.length_append, List.length_singleton, List.take_add_one, here, ← prefix_]
          rfl
      · contradiction
    · rename_i finished
      cases step
      refine ⟨sound.accounted.setCollector _, fun _ => quiet, ?_⟩
      have all : values.length = min state.reservoir.count N := by omega
      change values = state.reservoir.slots.take (min state.reservoir.count N)
      rw [← all]
      exact prefix_
  · contradiction

theorem Sound.step {state next : Sampling ι T N} {action : Action ι T N} (small : N < USIZE)
    (sound : state.Sound) (allowed : Quiet state action)
    (step : state.step action = some next) : next.Sound := by
  cases action with
  | sample tid item =>
      have idle : next.collector = .idle := by
        have before : state.collector = .idle := allowed
        simp only [Sampling.step] at step
        split at step
        · contradiction
        · split at step <;> (cases step; exact before)
      refine ⟨sound.accounted.sample small step, fun busy => absurd idle busy, ?_⟩
      rw [idle]
      trivial
  | write tid draw =>
      have accounted := sound.accounted.write step
      obtain ⟨call, here, rfl⟩ := Option.map_eq_some_iff.mp step
      have idle : state.collector = .idle := by
        by_contra busy
        rw [sound.quiet busy tid] at here
        contradiction
      refine ⟨accounted, fun busy => absurd idle busy, ?_⟩
      dsimp only
      rw [idle]
      trivial
  | addAll =>
      simp only [Sampling.step] at step
      split at step
      · cases step
        exact ⟨sound.accounted.setCollector _, fun _ => allowed, rfl, Nat.zero_le _, rfl⟩
      · contradiction
  | read => exact sound.read step
  | reset =>
      simp only [Sampling.step] at step
      split at step
      · rename_i values collecting
        cases step
        have quiet := sound.quiet (by simp [collecting])
        exact ⟨.of_reset quiet rfl rfl fun _ => rfl, fun busy => absurd rfl busy, trivial⟩
      · contradiction

theorem sound_of_reachable {state : Sampling ι T N} (small : N < USIZE)
    (reachable : (system ι T N).ReachableUnder Quiet state) : state.Sound := by
  refine System.ReachableUnder.invariant Sound ?_ ?_ reachable
  · rintro _ rfl
    exact sound_initial
  · intro state action next _ allowed step sound
    exact sound.step small allowed step

/-- A collection cannot get stuck in its loop. -/
theorem Sound.read_enabled {state : Sampling ι T N} {limit : Nat} {values : List (Option T)}
    (sound : state.Sound) (collecting : state.collector = .addAll limit values) :
    (state.step .read).isSome = true := by
  have reads := sound.reads
  rw [collecting] at reads
  obtain ⟨limitEq, _, _⟩ := reads
  simp only [Sampling.step, collecting]
  split
  · rename_i more
    rw [dif_pos (by omega)]
    rfl
  · rfl

namespace Sound

variable {state : Sampling ι T N} {values : List (Option T)}

omit [DecidableEq ι] in
theorem values_eq (sound : state.Sound) (merged : state.collector = .reset values) :
    values = state.reservoir.slots.take (min state.reservoir.count N) := by
  have reads := sound.reads
  rwa [merged] at reads

omit [DecidableEq ι] in
theorem length_values (sound : state.Sound) (merged : state.collector = .reset values) :
    values.length = min state.reservoir.count N := by
  rw [sound.values_eq merged, List.length_take, ReservoirSampler.length_slots]
  omega

omit [DecidableEq ι] in
/-- A slot that is read has been written since the last reset. -/
theorem written_of_read (sound : state.Sound) (merged : state.collector = .reset values)
    (place : Fin N) (read : place.val < values.length) :
    ∃ item, state.written place = some item ∧ values[place.val]? = some (some item) := by
  rw [sound.length_values merged, sound.accounted.count] at read
  have claimed : place.val < state.sampled.length :=
    (lt_min_iff.mp read).1.trans_le (Nat.mod_le _ _)
  rcases sound.accounted.covered place claimed with ⟨item, written⟩ | ⟨tid, item, call⟩
  · refine ⟨item, written, ?_⟩
    rw [sound.values_eq merged, sound.accounted.count, List.getElem?_take_of_lt read,
      ReservoirSampler.getElem?_slots, (sound.accounted.stored place item written).1]
  · rw [sound.quiet (by simp [merged]) tid] at call
    contradiction

omit [DecidableEq ι] in
/-- Where all items found room, they are read in the order of their indices. -/
theorem values_eq_map_sampled (small : N < USIZE) (sound : state.Sound)
    (merged : state.collector = .reset values) (room : state.sampled.length ≤ N) :
    values = state.sampled.map some := by
  have length : values.length = state.sampled.length := by
    rw [sound.length_values merged, sound.accounted.count, Nat.mod_eq_of_lt (by omega)]
    omega
  apply List.ext_getElem?
  intro index
  by_cases read : index < values.length
  · obtain ⟨item, written, holds⟩ :=
      sound.written_of_read merged ⟨index, by omega⟩ read
    rw [holds, List.getElem?_map, sound.accounted.storedAt room _ item written]
    rfl
  · rw [List.getElem?_eq_none (by omega), List.getElem?_eq_none (by simp; omega)]

end Sound

/-- Collections that do not overlap with calls read as many slots as were
claimed, each written since the last reset with an item sampled since then, and
lose no item as long as the reservoir has room for all of them. -/
theorem collection_exact (small : N < USIZE) {state : Sampling ι T N}
    (reachable : (system ι T N).ReachableUnder Quiet state) :
    (∀ limit values, state.collector = .addAll limit values →
      (state.step .read).isSome = true) ∧
    ∀ values, state.collector = .reset values →
      values.length = min state.reservoir.count N ∧
      (∀ index value, values[index]? = some value → ∃ inside : index < N, ∃ item ∈ state.sampled,
        state.written ⟨index, inside⟩ = some item ∧ value = some item) ∧
      (state.sampled.length ≤ N → values.Perm (state.sampled.map some)) := by
  have sound := sound_of_reachable small reachable
  constructor
  · intro limit values collecting
    exact sound.read_enabled collecting
  · intro values merged
    have length := sound.length_values merged
    refine ⟨length, fun index value here => ?_, fun room => ?_⟩
    · have read := (List.getElem?_eq_some_iff.mp here).1
      have inside : index < N := by omega
      obtain ⟨item, written, holds⟩ := sound.written_of_read merged ⟨index, inside⟩ read
      refine ⟨inside, item, (sound.accounted.stored _ item written).2, written, ?_⟩
      exact Option.some.inj (here.symm.trans holds)
    · rw [sound.values_eq_map_sampled small merged room]

instance [Fintype ι] (state : Sampling ι T N) (action : Action ι T N) :
    Decidable (StartsQuiet state action) :=
  match action with
  | .addAll => inferInstanceAs (Decidable (∀ tid, state.calls tid = none))
  | .sample _ _ | .write _ _ | .read | .reset => inferInstanceAs (Decidable True)

instance [Fintype ι] [DecidableEq T] (state : Sampling ι T N) (action : Action ι T N) :
    Decidable (Quiet state action) :=
  match action with
  | .sample _ _ => inferInstanceAs (Decidable (state.collector = .idle))
  | .addAll => inferInstanceAs (Decidable (∀ tid, state.calls tid = none))
  | .write _ _ | .read | .reset => inferInstanceAs (Decidable True)

/-- The second call starts after the collection has loaded the count. -/
def lostRun : List (Action (Fin 2) Nat 2) :=
  [.sample 0 10, .write 0 0, .addAll, .sample 1 20, .write 1 0, .read, .read]

/-- The second call starts during the first collection and writes after the calls
of the second round. -/
def leftOverRun : List (Action (Fin 2) Nat 2) :=
  [.sample 0 10, .write 0 0, .addAll, .sample 1 20, .read, .read, .reset,
    .sample 0 30, .write 0 0, .sample 0 40, .write 0 0, .write 1 0, .addAll, .read, .read, .read]

/-- It is not enough that all calls have returned when a collection starts: a
call that starts during the collection is counted but not read, and its item is
lost; or it writes after the reset, and the next collection reads its item. -/
theorem collection_overlapped :
    (∃ state : Sampling (Fin 2) Nat 2, (system (Fin 2) Nat 2).ReachableUnder StartsQuiet state ∧
      ∃ values, state.collector = .reset values ∧ values.length ≠ min state.reservoir.count 2 ∧
        state.sampled.length ≤ 2 ∧ ¬ values.Perm (state.sampled.map some)) ∧
    ∃ state : Sampling (Fin 2) Nat 2, (system (Fin 2) Nat 2).ReachableUnder StartsQuiet state ∧
      ∃ values, state.collector = .reset values ∧ state.sampled.length ≤ 2 ∧
        values[1]? = some (some 20) ∧ 20 ∉ state.sampled := by
  have start : (system (Fin 2) Nat 2).ReachableUnder StartsQuiet initial := .init rfl
  constructor
  case left =>
    have run : (((system (Fin 2) Nat 2).execUnder StartsQuiet initial lostRun).any fun state =>
        state.reservoir.count == 2 && state.sampled == [10, 20] &&
          state.collector == .reset [some 10]) = true := by decide
    obtain ⟨state, ends, here⟩ := (Option.any_eq_true _ _).mp run
    simp only [Bool.and_eq_true, beq_iff_eq] at here
    obtain ⟨⟨count, sampled⟩, merged⟩ := here
    refine ⟨state, start.of_execUnder ends, _, merged, by simp [count], by simp [sampled], ?_⟩
    intro same
    simpa [sampled] using same.length_eq
  case right =>
    have run : (((system (Fin 2) Nat 2).execUnder StartsQuiet initial leftOverRun).any fun state =>
        state.sampled == [30, 40] && state.collector == .reset [some 30, some 20]) = true := by
      decide
    obtain ⟨state, ends, here⟩ := (Option.any_eq_true _ _).mp run
    simp only [Bool.and_eq_true, beq_iff_eq] at here
    obtain ⟨sampled, merged⟩ := here
    exact ⟨state, start.of_execUnder ends, _, merged, by simp [sampled], rfl, by simp [sampled]⟩

/-- Two calls at once and a collection, then one more call and a collection. -/
def twoRounds : List (Action (Fin 2) Nat 2) :=
  [.sample 0 10, .sample 1 20, .write 1 0, .write 0 0, .addAll, .read, .read, .read, .reset,
    .sample 0 30, .write 0 1, .addAll, .read, .read]

/-- The second collection reads the one item sampled since the first, although
the other slot still holds an item from before. -/
theorem collection_exact_secondRound :
    ∃ state : Sampling (Fin 2) Nat 2, state.reservoir.samples 1 = some 20 ∧
      ∃ values, state.collector = .reset values ∧ values.length = min state.reservoir.count 2 ∧
        values.Perm (state.sampled.map some) := by
  have run : (((system (Fin 2) Nat 2).execUnder Quiet initial twoRounds).any fun state =>
      state.reservoir.samples 1 == some 20 && state.sampled == [30] &&
        state.collector == .reset [some 30]) = true := by decide
  obtain ⟨state, ends, here⟩ := (Option.any_eq_true _ _).mp run
  simp only [Bool.and_eq_true, beq_iff_eq] at here
  obtain ⟨⟨left, sampled⟩, merged⟩ := here
  have start : (system (Fin 2) Nat 2).ReachableUnder Quiet initial := .init rfl
  obtain ⟨length, _, bag⟩ :=
    (collection_exact (by decide) (start.of_execUnder ends)).2 _ merged
  exact ⟨state, left, _, merged, length, bag (by simp [sampled])⟩

end Sampling

end Schtest.Stats
