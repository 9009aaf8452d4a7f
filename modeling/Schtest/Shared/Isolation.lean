import Schtest.Shared.Store

/-!
# Objects do not disturb each other

The objects and the blocks that are being filled are separate regions below the
position of the allocator, and all bytes above it are still zero.  From this the
store refines independent cells, on which a thread stores and loads one byte at
a time.
-/

namespace Schtest.Shared

open Schtest.Transition Schtest.Collections

universe u

variable {ι : Type u} [DecidableEq ι] {memfd : MemFd} {config : Threads ι Store StorePc}

/-! ## Who has which bytes -/

/-- An object, or the new block of a thread that fills it. -/
inductive Owner (ι : Type u)
  | object (id : Nat)
  | thread (tid : ι)
  deriving DecidableEq

/-- The bytes of the object that is being filled. -/
def StorePc.region : StorePc → Set Nat
  | .filling value offset _ => Object.region ⟨value.layout, offset⟩
  | _ => ∅

/-- The bytes of an owner: of an object, or of the thread that fills one. -/
def regionOf (config : Threads ι Store StorePc) : Owner ι → Set Nat
  | .object id => config.shared.objects[id]?.elim ∅ Object.region
  | .thread tid => (config.locals tid).region

omit [DecidableEq ι] in
theorem regionOf_object {id : Nat} {object : Object}
    (here : config.shared.objects[id]? = some object) :
    regionOf config (.object id) = object.region := by
  rw [regionOf, here]
  rfl

theorem StorePc.Valid.congr {store store' : Store} {pc : StorePc} (valid : pc.Valid memfd store)
    (memory : store'.memory = store.memory) (objects : store'.objects = store.objects) :
    pc.Valid memfd store' := by
  cases pc with
  | idle => trivial
  | allocating value pc => exact valid
  | filling value offset written => simpa only [StorePc.Valid, memory] using valid
  | storing object pos bytes => simpa only [StorePc.Valid, objects] using valid

/-- How the mapping is laid out. -/
structure Laid (memfd : MemFd) (config : Threads ι Store StorePc) : Prop where
  bounded : config.shared.allocator.next.toNat ≤ memfd.size.toNat
  separate : Separate (regionOf config)
  below : ∀ owner, regionOf config owner ⊆ Set.Iio config.shared.allocator.next.toNat
  fresh : ∀ address, config.shared.allocator.next.toNat ≤ address →
    config.shared.memory address = 0
  valid : ∀ tid, (config.locals tid).Valid memfd config.shared

/-! ## One step -/

/-- A step that moves no bytes and claims none. -/
theorem Laid.quiet (laid : Laid memfd config) {tid : ι} {storeNext : Store} {pcNext : StorePc}
    (next : storeNext.allocator.next = config.shared.allocator.next)
    (memory : storeNext.memory = config.shared.memory)
    (objects : storeNext.objects = config.shared.objects)
    (region : pcNext.region = (config.locals tid).region)
    (valid : pcNext.Valid memfd config.shared) :
    Laid memfd ⟨storeNext, Function.update config.locals tid pcNext⟩ := by
  have regions : regionOf ⟨storeNext, Function.update config.locals tid pcNext⟩ =
      regionOf config := by
    funext owner
    cases owner with
    | object id => simp only [regionOf, objects]
    | thread other =>
        by_cases own : other = tid
        · subst own
          simpa [regionOf] using region
        · simp [regionOf, own]
  constructor
  case bounded => exact next ▸ laid.bounded
  case separate => exact regions ▸ laid.separate
  case below =>
    dsimp only
    rw [regions, next]
    exact laid.below
  case fresh =>
    dsimp only
    rw [next, memory]
    exact laid.fresh
  case valid =>
    intro other
    by_cases own : other = tid
    · subst own
      simpa using valid.congr memory objects
    · simpa [own] using (laid.valid other).congr memory objects

/-- A thread claims a block, which holds zeros. -/
theorem Laid.claim (laid : Laid memfd config) {tid : ι} {value : Value} {aligned stop : U64}
    (empty : (config.locals tid).region = ∅)
    (start : config.shared.allocator.next.toNat ≤ aligned.toNat)
    (size : stop.toNat = aligned.toNat + value.layout.size.toNat)
    (inside : stop.toNat ≤ memfd.size.toNat) (log : List Allocation) :
    Laid memfd ⟨{ config.shared with allocator := ⟨stop, log⟩ },
      Function.update config.locals tid (.filling value aligned 0)⟩ := by
  have regions : regionOf ⟨{ config.shared with allocator := ⟨stop, log⟩ },
      Function.update config.locals tid (.filling value aligned 0)⟩ =
        Function.update (regionOf config) (.thread tid)
          (Object.region ⟨value.layout, aligned⟩) := by
    funext owner
    cases owner with
    | object id => simp [regionOf]
    | thread other =>
        by_cases own : other = tid
        · subst own
          simp [regionOf, StorePc.region]
        · simp [regionOf, own]
  have forward : config.shared.allocator.next.toNat ≤ stop.toNat := by omega
  constructor
  case bounded => exact inside
  case separate =>
    rw [regions]
    apply laid.separate.claim
    intro other _
    rw [Set.disjoint_left]
    intro address claimed owned
    have old := laid.below other owned
    have new := claimed.1
    dsimp only at new
    simp only [Set.mem_Iio] at old
    omega
  case below =>
    intro owner
    rw [regions]
    by_cases own : owner = .thread tid
    · subst own
      rw [Function.update_self]
      intro address claimed
      have last := claimed.2
      dsimp only at last
      simp only [Set.mem_Iio]
      omega
    · rw [Function.update_of_ne own]
      exact (laid.below owner).trans (Set.Iio_subset_Iio forward)
  case fresh => exact fun address above => laid.fresh address (forward.trans above)
  case valid =>
    intro other
    by_cases own : other = tid
    · subst own
      simp only [Function.update_self]
      refine ⟨Nat.zero_le _, fun pos _ => ?_⟩
      rw [if_neg (Nat.not_lt_zero pos)]
      exact laid.fresh _ (start.trans (Nat.le_add_right _ _))
    · have before := laid.valid other
      simp only [Function.update_of_ne own]
      exact before.congr rfl rfl

/-- A thread stores a byte of its own new block, or of an object. -/
theorem Laid.write (laid : Laid memfd config) {tid : ι} {owner : Owner ι} {address : Nat}
    {byte : UInt8} {pcNext : StorePc} (owned : address ∈ regionOf config owner)
    (others : ∀ other ≠ tid, owner ≠ .thread other)
    (region : pcNext.region = (config.locals tid).region)
    (valid : pcNext.Valid memfd (config.shared.write address byte)) :
    Laid memfd ⟨config.shared.write address byte,
      Function.update config.locals tid pcNext⟩ := by
  have regions : regionOf ⟨config.shared.write address byte,
      Function.update config.locals tid pcNext⟩ = regionOf config := by
    funext owner
    cases owner with
    | object id => rfl
    | thread other =>
        by_cases own : other = tid
        · subst own
          simpa [regionOf] using region
        · simp [regionOf, own]
  constructor
  case bounded => exact laid.bounded
  case separate => exact regions ▸ laid.separate
  case below => exact regions ▸ laid.below
  case fresh =>
    intro above outside
    have old := laid.below owner owned
    simp only [Set.mem_Iio] at old
    have apart : above ≠ address := (old.trans_le outside).ne'
    exact (Function.update_of_ne apart _ _).trans (laid.fresh above outside)
  case valid =>
    intro other
    by_cases own : other = tid
    · subst own
      simpa using valid
    · have before := laid.valid other
      simp only [Function.update_of_ne own]
      cases here : config.locals other with
      | filling value offset written =>
          rw [here] at before
          refine ⟨before.1, fun pos inside => ?_⟩
          rw [← before.2 pos inside]
          apply laid.separate.update_eq (others other own).symm owned
          simp only [regionOf, here]
          exact Object.address_mem_region inside
      | _ =>
          rw [here] at before
          exact before

/-- A thread hands its block over to a new object. -/
theorem Laid.publish (laid : Laid memfd config) {tid : ι} {value : Value} {offset : U64}
    {written : Nat} (here : config.locals tid = .filling value offset written) :
    Laid memfd ⟨{ config.shared with objects := config.shared.objects ++ [⟨value.layout, offset⟩] },
      Function.update config.locals tid .idle⟩ := by
  have regions : regionOf ⟨{ config.shared with
      objects := config.shared.objects ++ [⟨value.layout, offset⟩] },
        Function.update config.locals tid .idle⟩ =
      regionOf config ∘ Equiv.swap (.object config.shared.objects.length) (.thread tid) := by
    funext owner
    cases owner with
    | object id =>
        by_cases new : id = config.shared.objects.length
        · subst new
          simp [regionOf, here, StorePc.region]
        · have kept : Equiv.swap (.object config.shared.objects.length) (.thread tid)
              (.object id : Owner ι) = .object id :=
            Equiv.swap_apply_of_ne_of_ne (by simpa using new) (by simp)
          rw [Function.comp_apply, kept]
          simp only [regionOf]
          rcases Nat.lt_or_gt_of_ne new with older | beyond
          · rw [List.getElem?_append_left older]
          · rw [List.getElem?_eq_none (by simp; omega), List.getElem?_eq_none (by omega)]
    | thread other =>
        by_cases own : other = tid
        · subst own
          simp [regionOf, StorePc.region]
        · have kept : Equiv.swap (.object config.shared.objects.length) (.thread tid)
              (.thread other : Owner ι) = .thread other :=
            Equiv.swap_apply_of_ne_of_ne (by simp) (by simpa using own)
          rw [Function.comp_apply, kept]
          simp [regionOf, own]
  constructor
  case bounded => exact laid.bounded
  case separate =>
    rw [regions]
    exact laid.separate.swap _ _
  case below =>
    intro owner
    rw [regions]
    exact laid.below _
  case fresh => exact laid.fresh
  case valid =>
    intro other
    by_cases own : other = tid
    · subst own
      simp [StorePc.Valid]
    · have before := laid.valid other
      simp only [Function.update_of_ne own]
      cases pc : config.locals other with
      | storing object pos bytes =>
          rw [pc] at before
          obtain ⟨target, found, inside⟩ := before
          have older := (List.getElem?_eq_some_iff.mp found).1
          exact ⟨target, (List.getElem?_append_left older).trans found, inside⟩
      | _ =>
          rw [pc] at before
          exact before

/-- The byte that a thread writes next into its new block. -/
theorem valid_of_fill {store : Store} {value : Value} {offset : U64} {written : Nat} {byte : UInt8}
    (valid : (StorePc.filling value offset written).Valid memfd store)
    (here : value.bytes[written]? = some byte) :
    (StorePc.filling value offset (written + 1)).Valid memfd
      (store.write (Object.address ⟨value.layout, offset⟩ written) byte) := by
  obtain ⟨inside, same⟩ := List.getElem?_eq_some_iff.mp here
  refine ⟨inside, fun pos within => ?_⟩
  by_cases now : pos = written
  · subst now
    rw [if_pos (Nat.lt_succ_self pos)]
    refine (Function.update_self _ _ _).trans ?_
    rw [List.getD_eq_getElem _ _ inside, same]
  · refine (Function.update_of_ne (Object.address_ne _ now) _ _).trans ?_
    rw [valid.2 pos within]
    by_cases before : pos < written
    · rw [if_pos before, if_pos (Nat.lt_succ_of_lt before)]
    · rw [if_neg before, if_neg (by omega)]

theorem Laid.of_effect (laid : Laid memfd config) {tid : ι} {storeNext : Store}
    {pcNext : StorePc}
    (effect : StoreEffect memfd config.shared (config.locals tid) storeNext pcNext) :
    Laid memfd ⟨storeNext, Function.update config.locals tid pcNext⟩ := by
  have valid := laid.valid tid
  generalize here : config.locals tid = pc at effect valid
  cases effect with
  | begins value => exact laid.quiet rfl rfl rfl (by rw [here]; rfl) trivial
  | stores found inside => exact laid.quiet rfl rfl rfl (by rw [here]; rfl) ⟨_, found, inside⟩
  | loads _ _ => exact laid.quiet rfl rfl rfl (by rw [here]) trivial
  | allocates pcValid => exact laid.quiet rfl rfl rfl (by rw [here]; rfl) pcValid
  | refused => exact laid.quiet rfl rfl rfl (by rw [here]; rfl) trivial
  | claims start size inside => exact laid.claim (by rw [here]; rfl) start size inside _
  | @fills value offset written byte next =>
      have within := (List.getElem?_eq_some_iff.mp next).1.trans_le value.fits
      have owned : Object.address ⟨value.layout, offset⟩ written ∈
          regionOf config (.thread tid) := by
        simp only [regionOf, here]
        exact Object.address_mem_region within
      apply laid.write owned
      · intro other differs same
        cases same
        exact differs rfl
      · rw [here]
        rfl
      · exact valid_of_fill valid next
  | publishes _ => exact laid.publish here
  | @writes object pos byte rest target found =>
      obtain ⟨target', found', inside⟩ := valid
      rw [found] at found'
      cases found'
      rw [List.length_cons] at inside
      have owned : target.address pos ∈ regionOf config (.object object) := by
        rw [regionOf_object found]
        exact Object.address_mem_region (by omega)
      apply laid.write owned
      · exact fun _ _ same => by cases same
      · rw [here]
        rfl
      · exact ⟨target, found, by omega⟩
  | stored => exact laid.quiet rfl rfl rfl (by rw [here]; rfl) trivial

theorem laid_of_reachable (reachable : (storeSystem ι memfd).Reachable config) :
    Laid memfd config := by
  refine System.Reachable.invariant (Laid memfd) ?_ ?_ reachable
  · rintro ⟨store, locals⟩ ⟨rfl, idle⟩
    have empty (owner : Owner ι) : regionOf ⟨.new, locals⟩ owner = ∅ := by
      cases owner with
      | object id => rfl
      | thread tid =>
          have atIdle : locals tid = .idle := idle tid
          simp only [regionOf, atIdle]
          rfl
    constructor
    case bounded => exact Nat.zero_le _
    case separate =>
      intro a b _
      simp [empty]
    case below =>
      intro owner
      rw [empty]
      exact Set.empty_subset _
    case fresh => exact fun _ _ => rfl
    case valid =>
      intro tid
      have atIdle : locals tid = .idle := idle tid
      simp only [atIdle]
      trivial
  · rintro config ⟨tid, action⟩ next _ step laid
    obtain ⟨store, pc, threadStep, rfl⟩ := Program.system_step_eq_some_iff.mp step
    exact laid.of_effect (storeEffect_of_step laid.bounded (laid.valid tid) threadStep)

/-! ## Objects as cells -/

/-- The bytes of the object are those of the cell. -/
structure Shows (memory : Nat → UInt8) (object : Object) (cell : Cell) : Prop where
  layout : cell.layout = object.layout
  contents : ∀ pos < object.layout.size.toNat, cell.contents pos = memory (object.address pos)

/-- The store shows the cells, and its loads have returned the same. -/
structure Represents (store : Store) (state : Cells) : Prop where
  loads : state.loads = store.loads
  length : state.cells.length = store.objects.length
  shows : ∀ (id : Nat) (object : Object) (cell : Cell), store.objects[id]? = some object →
    state.cells[id]? = some cell → Shows store.memory object cell

variable {store : Store} {state : Cells}

theorem Represents.exists_cell (represents : Represents store state) {id : Nat} {object : Object}
    (here : store.objects[id]? = some object) :
    ∃ cell, state.cells[id]? = some cell ∧ Shows store.memory object cell := by
  have inside := (List.getElem?_eq_some_iff.mp here).1
  rw [← represents.length] at inside
  have found := List.getElem?_eq_getElem inside
  exact ⟨_, found, represents.shows id object _ here found⟩

/-- A step that changes no byte of an object. -/
theorem Represents.quiet (represents : Represents store state) {storeNext : Store}
    (loads : storeNext.loads = store.loads) (objects : storeNext.objects = store.objects)
    (memory : ∀ (id : Nat) (object : Object), store.objects[id]? = some object →
      ∀ pos < object.layout.size.toNat,
        storeNext.memory (object.address pos) = store.memory (object.address pos)) :
    Represents storeNext state := by
  constructor
  case loads => exact represents.loads.trans loads.symm
  case length => rw [represents.length, objects]
  case shows =>
    intro id object cell here found
    rw [objects] at here
    have before := represents.shows id object cell here found
    refine ⟨before.layout, fun pos inside => ?_⟩
    rw [memory id object here pos inside]
    exact before.contents pos inside

/-- A load is one of the cell. -/
theorem Represents.load (represents : Represents store state) {id pos : Nat} {target : Object}
    (here : store.objects[id]? = some target) (inside : pos < target.layout.size.toNat) :
    ∃ stateNext, cellsSystem.step state (.load id pos) = some stateNext ∧
      Represents { store with
        loads := ⟨id, pos, store.memory (target.address pos)⟩ :: store.loads } stateNext := by
  obtain ⟨cell, found, shown⟩ := represents.exists_cell here
  refine ⟨{ state with loads := ⟨id, pos, cell.contents pos⟩ :: state.loads }, ?_, ?_⟩
  · simp only [cellsSystem, Cells.step, found, Option.bind_some, shown.layout, if_pos inside]
  · constructor
    case loads => rw [shown.contents pos inside, represents.loads]
    case length => exact represents.length
    case shows => exact represents.shows

/-- A byte stored in one object is stored in its cell, and in no other. -/
theorem Represents.write (represents : Represents store state) {id pos : Nat} {target : Object}
    {byte : UInt8} (here : store.objects[id]? = some target)
    (inside : pos < target.layout.size.toNat)
    (elsewhere : ∀ (other : Nat) (object : Object), other ≠ id →
      store.objects[other]? = some object → ∀ place < object.layout.size.toNat,
        (store.write (target.address pos) byte).memory (object.address place) =
          store.memory (object.address place)) :
    ∃ stateNext, cellsSystem.step state (.store id pos byte) = some stateNext ∧
      Represents (store.write (target.address pos) byte) stateNext := by
  obtain ⟨cell, found, shown⟩ := represents.exists_cell here
  let contents := Function.update cell.contents pos byte
  refine ⟨{ state with cells := state.cells.set id { cell with contents := contents } }, ?_, ?_⟩
  · simp only [cellsSystem, Cells.step, found, Option.bind_some, shown.layout, if_pos inside,
      contents]
  constructor
  case loads => exact represents.loads
  case length =>
    rw [List.length_set]
    exact represents.length
  case shows =>
    intro other object otherCell there foundNext
    by_cases same : other = id
    · subst same
      have again : object = target := Option.some.inj (there.symm.trans here)
      subst again
      have within := (List.getElem?_eq_some_iff.mp found).1
      rw [List.getElem?_set_self within] at foundNext
      cases foundNext
      refine ⟨shown.layout, fun place near => ?_⟩
      by_cases now : place = pos
      · subst now
        simp [contents, Store.write]
      · have apart := object.address_ne now
        simp only [contents, Store.write, Function.update_of_ne now, Function.update_of_ne apart]
        exact shown.contents place near
    · rw [List.getElem?_set_ne (Ne.symm same)] at foundNext
      have before := represents.shows other object otherCell there foundNext
      refine ⟨before.layout, fun place near => ?_⟩
      rw [elsewhere other object same there place near]
      exact before.contents place near

/-- A new object appears with the value of its cell. -/
theorem Represents.create (represents : Represents store state) {value : Value} {offset : U64}
    (filled : ∀ pos < value.layout.size.toNat,
      store.memory (Object.address ⟨value.layout, offset⟩ pos) = value.bytes.getD pos 0) :
    ∃ stateNext, cellsSystem.step state (.create value) = some stateNext ∧
      Represents { store with objects := store.objects ++ [⟨value.layout, offset⟩] } stateNext := by
  refine ⟨{ state with cells := state.cells ++ [value.cell] }, rfl, ?_⟩
  constructor
  case loads => exact represents.loads
  case length => simp [represents.length]
  case shows =>
    intro id object cell here found
    rcases Nat.lt_or_ge id store.objects.length with older | newer
    · rw [List.getElem?_append_left older] at here
      rw [List.getElem?_append_left (represents.length.symm ▸ older)] at found
      exact represents.shows id object cell here found
    · rw [List.getElem?_append_right newer, List.getElem?_singleton] at here
      rw [List.getElem?_append_right (represents.length.symm ▸ newer), represents.length,
        List.getElem?_singleton] at found
      split at here
      · rename_i last
        rw [if_pos last] at found
        cases here
        cases found
        exact ⟨rfl, fun pos inside => (filled pos inside).symm⟩
      · contradiction

omit [DecidableEq ι] in
/-- A byte of one owner leaves the bytes of every other object as they are. -/
theorem Laid.write_elsewhere (laid : Laid memfd config) {owner : Owner ι} {address : Nat}
    {byte : UInt8} (owned : address ∈ regionOf config owner) {id : Nat} {object : Object}
    (different : .object id ≠ owner) (here : config.shared.objects[id]? = some object) {pos : Nat}
    (inside : pos < object.layout.size.toNat) :
    (config.shared.write address byte).memory (object.address pos) =
      config.shared.memory (object.address pos) := by
  apply laid.separate.update_eq different owned
  rw [regionOf_object here]
  exact Object.address_mem_region inside

omit [DecidableEq ι] in
theorem refines_cells_of_effect (laid : Laid memfd config) {tid : ι} {storeNext : Store}
    {pcNext : StorePc} {state : Cells} (represents : Represents config.shared state)
    (effect : StoreEffect memfd config.shared (config.locals tid) storeNext pcNext) :
    Represents storeNext state ∨ ∃ event stateNext,
      cellsSystem.step state event = some stateNext ∧ Represents storeNext stateNext := by
  have valid := laid.valid tid
  generalize here : config.locals tid = pc at effect valid
  cases effect with
  | loads found inside => exact Or.inr ⟨_, represents.load found inside⟩
  | @fills value offset written byte next =>
      have within := (List.getElem?_eq_some_iff.mp next).1.trans_le value.fits
      have owned : Object.address ⟨value.layout, offset⟩ written ∈
          regionOf config (.thread tid) := by
        simp only [regionOf, here]
        exact Object.address_mem_region within
      left
      exact represents.quiet rfl rfl fun id object found pos inside =>
        laid.write_elsewhere owned (fun same => by cases same) found inside
  | @publishes value offset written done =>
      right
      refine ⟨_, represents.create fun pos inside => ?_⟩
      rw [valid.2 pos inside]
      split
      · rfl
      · rename_i beyond
        exact (List.getD_eq_default _ _ (done.trans (Nat.not_lt.mp beyond))).symm
  | @writes object pos byte rest target found =>
      obtain ⟨target', found', inside⟩ := valid
      rw [found] at found'
      cases found'
      rw [List.length_cons] at inside
      have within : pos < target.layout.size.toNat := by omega
      have owned : target.address pos ∈ regionOf config (.object object) := by
        rw [regionOf_object found]
        exact Object.address_mem_region within
      right
      refine ⟨_, represents.write found within fun other there different isThere place near => ?_⟩
      refine laid.write_elsewhere owned ?_ isThere near
      intro same
      cases same
      exact different rfl
  | _ => exact Or.inl (represents.quiet rfl rfl fun _ _ _ _ _ => rfl)

/-- The store behaves as independent cells. -/
theorem store_refinement (ι : Type u) [DecidableEq ι] (memfd : MemFd) :
    Refinement (storeSystem ι memfd) cellsSystem
      fun config state => Represents config.shared state where
  init := by
    rintro ⟨store, locals⟩ ⟨rfl, idle⟩
    refine ⟨_, rfl, rfl, rfl, fun id object cell here => ?_⟩
    simp [Store.new] at here
  step := by
    rintro config ⟨tid, action⟩ next state reachable step represents
    obtain ⟨store, pc, threadStep, rfl⟩ := Program.system_step_eq_some_iff.mp step
    have laid := laid_of_reachable reachable
    exact refines_cells_of_effect laid represents
      (storeEffect_of_step laid.bounded (laid.valid tid) threadStep)

/-! ## Every reachable store -/

/-- What threads see of the objects. -/
structure BehavesAsCells (memfd : MemFd) (store : Store) : Prop where
  /-- Some run of independent cells has the same contents, and each load has
  returned the same byte in it. -/
  cells : ∃ state, cellsSystem.Reachable state ∧ Represents store state
  /-- The objects lie within the mapping. -/
  inside : ∀ object ∈ store.objects, object.region ⊆ Set.Iio memfd.size.toNat
  /-- They do not overlap. -/
  disjoint : store.objects.Pairwise fun a b => Disjoint a.region b.region

omit [DecidableEq ι] in
theorem Laid.disjoint (laid : Laid memfd config) :
    config.shared.objects.Pairwise fun a b => Disjoint a.region b.region := by
  rw [List.pairwise_iff_getElem]
  intro i j before after earlier
  have apart : Owner.object (ι := ι) i ≠ .object j := by
    intro same
    cases same
    exact Nat.lt_irrefl _ earlier
  have separate : Disjoint (regionOf config (.object i)) (regionOf config (.object j)) :=
    laid.separate apart
  rwa [regionOf_object (List.getElem?_eq_getElem before),
    regionOf_object (List.getElem?_eq_getElem after)] at separate

theorem store_behaves_as_cells (memfd : MemFd) (config : Threads ι Store StorePc)
    (reachable : (storeSystem ι memfd).Reachable config) :
    BehavesAsCells memfd config.shared := by
  have laid := laid_of_reachable reachable
  constructor
  case cells => exact (store_refinement ι memfd).reachable reachable
  case inside =>
    intro object member
    obtain ⟨id, here⟩ := List.mem_iff_getElem?.mp member
    have below := laid.below (.object id)
    rw [regionOf_object here] at below
    exact below.trans (Set.Iio_subset_Iio laid.bounded)
  case disjoint => exact laid.disjoint

/-- A counter of four bytes, of which only the first is written. -/
def counter : Value where
  layout := ⟨4, 4, ⟨2, rfl⟩, by decide⟩
  bytes := [7]
  fits := by decide

/-- Two threads create a counter each, the second one between the steps of the
first, and store in each other's. -/
def crossedStores : List (Fin 2 × StoreAction) :=
  [(0, .create counter), (1, .create counter), (0, .run), (1, .run), (0, .run), (1, .run),
    (1, .run), (0, .run), (1, .run), (0, .run), (0, .run), (1, .run), (0, .run), (0, .run),
    (0, .run), (0, .store 0 1 [9]), (1, .store 1 0 [5]), (0, .run), (1, .run), (0, .run),
    (1, .run), (0, .load 0 0), (1, .load 0 1), (1, .load 1 0)]

theorem store_behaves_as_cells_crossedStores :
    ∃ config, (storeSystem (Fin 2) onePage).exec ⟨.new, fun _ => .idle⟩ crossedStores =
        some config ∧ BehavesAsCells onePage config.shared := by
  have initial : (storeSystem (Fin 2) onePage).init ⟨.new, fun _ => .idle⟩ :=
    ⟨rfl, fun _ => rfl⟩
  obtain ⟨config, run, reachable⟩ :=
    System.exists_exec_of_isSome crossedStores initial (by decide)
  exact ⟨config, run, store_behaves_as_cells onePage config reachable⟩

end Schtest.Shared
