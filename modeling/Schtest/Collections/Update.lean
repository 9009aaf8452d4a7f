import Mathlib.Logic.Function.Basic

/-!
# Partial maps as functions

Who holds what after one entry of a partial map is set or removed.
-/

namespace Schtest.Collections

universe u v

variable {α : Type u} {β : Type v} [DecidableEq α] {f : α → Option β} {a b : α}

theorem update_some_eq_some_iff {old new : β} : Function.update f a (some new) b = some old ↔
    (b = a ∧ new = old) ∨ (b ≠ a ∧ f b = some old) := by
  by_cases same : b = a
  · subst same
    simp
  · simp [same]

theorem update_none_eq_some_iff {old : β} :
    Function.update f a none b = some old ↔ b ≠ a ∧ f b = some old := by
  by_cases same : b = a
  · subst same
    simp
  · simp [same]

end Schtest.Collections
