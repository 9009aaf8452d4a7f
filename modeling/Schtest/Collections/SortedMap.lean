import Mathlib.Data.List.Perm.Basic
import Mathlib.Order.Lattice

/-!
# Maps with sorted keys

A finite map as the list of its entries in the order of their keys.  A map is
changed one entry at a time, by a function that is given a default where the
key is new.
-/

namespace Schtest.Collections

universe u v w

/-- The entries of a map, with strictly increasing keys. -/
structure SortedMap (κ : Type u) (β : Type v) [LT κ] where
  entries : List (κ × β)
  sorted : entries.Pairwise fun a b => a.1 < b.1

namespace SortedMap

variable {κ : Type u} {β : Type v} [LinearOrder κ]

/-- The map without keys. -/
def empty : SortedMap κ β :=
  ⟨[], .nil⟩

/-- The value of a key. -/
def find? (map : SortedMap κ β) (key : κ) : Option β :=
  (map.entries.find? fun entry => entry.1 = key).map Prod.snd

/-- The number of keys. -/
def size (map : SortedMap κ β) : Nat :=
  map.entries.length

/-- Change the value of one key in a list of entries. -/
def upsertEntries (key : κ) (default : β) (change : β → β) : List (κ × β) → List (κ × β)
  | [] => [(key, change default)]
  | (other, value) :: rest =>
      if key < other then (key, change default) :: (other, value) :: rest
      else if key = other then (key, change value) :: rest
      else (other, value) :: upsertEntries key default change rest

theorem key_mem_upsertEntries {key other : κ} {default : β} {change : β → β}
    {entries : List (κ × β)} :
    other ∈ (upsertEntries key default change entries).map Prod.fst ↔
      other = key ∨ other ∈ entries.map Prod.fst := by
  induction entries with
  | nil => simp [upsertEntries]
  | cons entry rest ih =>
      obtain ⟨first, value⟩ := entry
      unfold upsertEntries
      split
      · simp
      · split
        · rename_i same
          simp [same]
        · rw [List.map_cons, List.mem_cons, ih, List.map_cons, List.mem_cons]
          exact or_left_comm

theorem sorted_upsertEntries {key : κ} {default : β} {change : β → β} {entries : List (κ × β)}
    (sorted : entries.Pairwise fun a b => a.1 < b.1) :
    (upsertEntries key default change entries).Pairwise fun a b => a.1 < b.1 := by
  induction sorted with
  | nil => exact List.pairwise_singleton _ _
  | @cons entry rest first sorted ih =>
      obtain ⟨other, value⟩ := entry
      have smaller : ∀ later ∈ rest.map Prod.fst, other < later := by
        simpa using first
      unfold upsertEntries
      split
      · rename_i less
        refine .cons ?_ (.cons first sorted)
        intro later member
        rcases List.mem_cons.mp member with rfl | member
        · exact less
        · exact lt_trans less (first later member)
      · split
        · rename_i same
          subst same
          exact .cons first sorted
        · rename_i notLess notSame
          refine .cons ?_ ih
          intro later member
          rcases key_mem_upsertEntries.mp (List.mem_map_of_mem member) with same | before
          · rw [same]
            exact lt_of_le_of_ne (not_lt.mp notLess) (Ne.symm notSame)
          · exact smaller _ before

/-- Change the value of a key, or the default where there is none. -/
def upsert (map : SortedMap κ β) (key : κ) (default : β) (change : β → β) : SortedMap κ β :=
  ⟨upsertEntries key default change map.entries, sorted_upsertEntries map.sorted⟩

/-- The keys in their order. -/
def keys (map : SortedMap κ β) : List κ :=
  map.entries.map Prod.fst

theorem length_keys (map : SortedMap κ β) : map.keys.length = map.size :=
  List.length_map _

theorem nodup_keys (map : SortedMap κ β) : map.keys.Nodup :=
  List.pairwise_map.mpr (map.sorted.imp ne_of_lt)

/-- `map.insert(key, value)`. -/
def insert (map : SortedMap κ β) (key : κ) (value : β) : SortedMap κ β :=
  map.upsert key value fun _ => value

theorem mem_keys_insert {map : SortedMap κ β} {key other : κ} {value : β} :
    other ∈ (map.insert key value).keys ↔ other = key ∨ other ∈ map.keys :=
  key_mem_upsertEntries

theorem find?_upsertEntries {key : κ} {default : β} {change : β → β} {entries : List (κ × β)}
    (sorted : entries.Pairwise fun a b => a.1 < b.1) (other : κ) :
    ((upsertEntries key default change entries).find? fun entry => entry.1 = other).map Prod.snd =
      if other = key then
        some (change (((entries.find? fun entry => entry.1 = key).map Prod.snd).getD default))
      else (entries.find? fun entry => entry.1 = other).map Prod.snd := by
  induction sorted with
  | nil =>
      by_cases same : other = key
      · simp [upsertEntries, same]
      · simp [upsertEntries, same, Ne.symm same]
  | @cons entry rest first sorted ih =>
      obtain ⟨head, value⟩ := entry
      unfold upsertEntries
      split
      · rename_i less
        -- The keys behind the new entry are all greater than its own.
        have missing : (((head, value) :: rest).find? fun entry => entry.1 = key) = none := by
          rw [List.find?_eq_none]
          intro later member
          rcases List.mem_cons.mp member with rfl | member
          · simpa using ne_of_gt less
          · simpa using ne_of_gt (lt_trans less (first later member))
        rw [missing]
        by_cases same : other = key
        · simp [same]
        · simp [same, Ne.symm same]
      · split
        · rename_i same
          subst same
          by_cases same : other = key
          · simp [same]
          · simp [same, Ne.symm same]
        · rename_i notSame
          by_cases front : head = other
          · subst front
            simp [Ne.symm notSame]
          · simp only [List.find?_cons, front, decide_false, Ne.symm notSame]
            exact ih

/-- A change is seen at its own key and nowhere else. -/
theorem find?_upsert (map : SortedMap κ β) (key : κ) (default : β) (change : β → β) (other : κ) :
    (map.upsert key default change).find? other =
      if other = key then some (change ((map.find? key).getD default)) else map.find? other :=
  find?_upsertEntries map.sorted other

@[simp]
theorem find?_insert (map : SortedMap κ β) (key : κ) (value : β) (other : κ) :
    (map.insert key value).find? other = if other = key then some value else map.find? other :=
  find?_upsert map key value _ other

/-- Two positions are the same where their keys are. -/
theorem index_eq_iff (map : SortedMap κ β) {i j : Nat} {first second : κ × β}
    (atFirst : map.entries[i]? = some first) (atSecond : map.entries[j]? = some second) :
    i = j ↔ first.1 = second.1 := by
  obtain ⟨first_lt, rfl⟩ := List.getElem?_eq_some_iff.mp atFirst
  obtain ⟨second_lt, rfl⟩ := List.getElem?_eq_some_iff.mp atSecond
  have increasing := List.pairwise_iff_getElem.mp map.sorted
  constructor
  · intro same
    subst same
    rfl
  · intro same
    rcases Nat.lt_trichotomy i j with before | same_index | after
    · exact absurd same (ne_of_lt (increasing i j first_lt second_lt before))
    · exact same_index
    · exact absurd same (ne_of_gt (increasing j i second_lt first_lt after))

/-- The map that is left after inserting some entries one after the other. -/
def insertAll (map : SortedMap κ β) (pairs : List (κ × β)) : SortedMap κ β :=
  pairs.foldl (fun map pair => map.insert pair.1 pair.2) map

theorem find?_insertAll_of_notMem (map : SortedMap κ β) {pairs : List (κ × β)} {key : κ}
    (missing : key ∉ pairs.map Prod.fst) : (map.insertAll pairs).find? key = map.find? key := by
  induction pairs generalizing map with
  | nil => rfl
  | cons pair rest ih =>
      rw [List.map_cons, List.mem_cons, not_or] at missing
      calc
        ((map.insert pair.1 pair.2).insertAll rest).find? key
            = (map.insert pair.1 pair.2).find? key := ih _ missing.2
        _ = map.find? key := by rw [find?_insert, if_neg missing.1]

/-- With distinct keys each entry is found again. -/
theorem find?_insertAll (map : SortedMap κ β) {pairs : List (κ × β)}
    (distinct : (pairs.map Prod.fst).Nodup) {pair : κ × β} (member : pair ∈ pairs) :
    (map.insertAll pairs).find? pair.1 = some pair.2 := by
  induction pairs generalizing map with
  | nil => cases member
  | cons first rest ih =>
      rw [List.map_cons, List.nodup_cons] at distinct
      rcases List.mem_cons.mp member with rfl | member
      · calc
          ((map.insert pair.1 pair.2).insertAll rest).find? pair.1
              = (map.insert pair.1 pair.2).find? pair.1 :=
                find?_insertAll_of_notMem _ distinct.1
          _ = some pair.2 := by rw [find?_insert, if_pos rfl]
      · exact ih _ distinct.2 member

theorem find?_insertAll_eq_some_iff {pairs : List (κ × β)}
    (distinct : (pairs.map Prod.fst).Nodup) {key : κ} {value : β} :
    (empty.insertAll pairs).find? key = some value ↔ (key, value) ∈ pairs := by
  constructor
  · intro found
    by_cases member : key ∈ pairs.map Prod.fst
    · obtain ⟨⟨_, other⟩, inserted, rfl⟩ := List.mem_map.mp member
      rw [find?_insertAll empty distinct inserted] at found
      cases found
      exact inserted
    · rw [find?_insertAll_of_notMem empty member] at found
      contradiction
  · intro member
    exact find?_insertAll empty distinct member

/-- Where a change of a value adds one item to what the value holds, the change
of the map adds that item to what the map holds. -/
theorem flatMap_upsert_perm {α : Type w} (map : SortedMap κ β) {key : κ} {default : β}
    {change : β → β} {items : κ × β → List α} {item : α} (none : items (key, default) = [])
    (adds : ∀ value, (items (key, change value)).Perm (item :: items (key, value))) :
    ((map.upsert key default change).entries.flatMap items).Perm
      (item :: map.entries.flatMap items) := by
  have new : (items (key, change default)).Perm [item] := by
    simpa [none] using adds default
  obtain ⟨entries, sorted⟩ := map
  change ((upsertEntries key default change entries).flatMap items).Perm
    (item :: entries.flatMap items)
  clear sorted
  induction entries with
  | nil => simpa [upsertEntries] using new
  | cons entry rest ih =>
      obtain ⟨other, value⟩ := entry
      unfold upsertEntries
      split
      · exact new.append_right _
      · split
        · rename_i same
          subst same
          exact (adds value).append_right _
        · exact (ih.append_left _).trans List.perm_middle

/-- All values have a property. -/
def Forall (p : β → Prop) (map : SortedMap κ β) : Prop :=
  ∀ entry ∈ map.entries, p entry.2

theorem forall_empty (p : β → Prop) : (empty : SortedMap κ β).Forall p :=
  List.forall_mem_nil _

/-- The property is kept where the change of a value, or of the default, gives it anew from
a weaker one. -/
theorem Forall.upsert {p q : β → Prop} {map : SortedMap κ β} (before : map.Forall p)
    {key : κ} {default : β} {change : β → β} (fresh : q default)
    (weaker : ∀ value, p value → q value) (changes : ∀ value, q value → p (change value)) :
    (map.upsert key default change).Forall p := by
  obtain ⟨entries, sorted⟩ := map
  change ∀ entry ∈ entries, p entry.2 at before
  change ∀ entry ∈ upsertEntries key default change entries, p entry.2
  clear sorted
  induction entries with
  | nil => simpa [upsertEntries] using changes default fresh
  | cons entry rest ih =>
      obtain ⟨other, value⟩ := entry
      obtain ⟨here, later⟩ := List.forall_mem_cons.mp before
      unfold upsertEntries
      split
      · exact List.forall_mem_cons.mpr ⟨changes default fresh, before⟩
      · split
        · exact List.forall_mem_cons.mpr ⟨changes value (weaker value here), later⟩
        · exact List.forall_mem_cons.mpr ⟨here, ih later⟩

theorem upsert_ne_nil (map : SortedMap κ β) (key : κ) (default : β) (change : β → β) :
    (map.upsert key default change).entries ≠ [] := by
  intro none
  have has : key ∈ (map.upsert key default change).keys :=
    key_mem_upsertEntries.mpr (.inl rfl)
  rw [keys, none] at has
  cases has

end SortedMap

end Schtest.Collections
