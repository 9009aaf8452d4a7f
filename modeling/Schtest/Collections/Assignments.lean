import Mathlib.Data.List.Induction
import Mathlib.Data.List.Sigma

/-!
# One assignment after another

A table with a value of its own type at each key, to which a list of assignments
is applied in order: the last one to a key decides.
-/

namespace Schtest.Collections

universe u v

variable {κ : Type u} {β : κ → Type v} [DecidableEq κ]

/-- The table after the assignments, of which later ones win. -/
def assign (table : ∀ key, β key) (assignments : List (Sigma β)) : ∀ key, β key :=
  assignments.foldl (fun table assignment => Function.update table assignment.1 assignment.2) table

/-- The value of the last assignment to a key. -/
def lastAssigned (assignments : List (Sigma β)) (key : κ) : Option (β key) :=
  assignments.reverse.dlookup key

theorem assign_apply (table : ∀ key, β key) (assignments : List (Sigma β)) (key : κ) :
    assign table assignments key = (lastAssigned assignments key).getD (table key) := by
  unfold assign lastAssigned
  induction assignments using List.reverseRecOn with
  | nil => rfl
  | append_singleton older newest ih =>
      obtain ⟨last, value⟩ := newest
      rw [List.foldl_concat, List.reverse_concat]
      by_cases same : key = last
      · subst same
        rw [Function.update_self, List.dlookup_cons_eq, Option.getD_some]
      · rw [Function.update_of_ne same, List.dlookup_cons_ne _ _ same]
        exact ih

/-- Steps that assign at most once each. -/
theorem foldl_eq_assign {α : Type*} (step : (∀ key, β key) → α → ∀ key, β key)
    (assignment : α → Option (Sigma β))
    (skips : ∀ table action, assignment action = none → step table action = table)
    (assigns : ∀ table action found, assignment action = some found →
      step table action = Function.update table found.1 found.2)
    (table : ∀ key, β key) (actions : List α) :
    actions.foldl step table = assign table (actions.filterMap assignment) := by
  induction actions generalizing table with
  | nil => rfl
  | cons action rest ih =>
      rw [List.foldl_cons, ih, List.filterMap_cons]
      cases here : assignment action with
      | none => rw [skips table action here]
      | some found =>
          rw [assigns table action found here]
          rfl

end Schtest.Collections
