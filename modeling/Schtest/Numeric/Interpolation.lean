import Mathlib.Algebra.Order.Field.Basic
import Mathlib.Data.List.Pairwise
import Mathlib.Tactic.FieldSimp
import Mathlib.Tactic.GCongr
import Mathlib.Tactic.Ring

/-!
# Interpolation between nodes

A list of nodes gives values at increasing positions.  A position outside of
them takes the value of the first or the last node, and a position between two
neighbours a value on a line through these.  Whatever the lines are, as long as
they are monotone so is the interpolant.  Where they are straight, it is the one
piecewise linear function through the nodes.
-/

namespace Schtest.Numeric

universe u v

variable {K : Type u} {β : Type v}

/-! ## Where a position lies -/

/-- A node that decides the value alone, or two neighbours. -/
inductive Found (K : Type u) (β : Type v) where
  | at (node : K × β)
  | between (left right : K × β)

variable [LinearOrder K]

/-- The first two neighbours that a position lies between. -/
def bracket (position : K) : List (K × β) → Option (Found K β)
  | left :: right :: rest =>
      if left.1 ≤ position ∧ position ≤ right.1 then some (.between left right)
      else bracket position (right :: rest)
  | _ => none

/-- The nodes that decide the value at a position. -/
def locate (nodes : List (K × β)) (position : K) : Option (Found K β) :=
  match nodes.head?, nodes.getLast? with
  | some first, some last =>
      if position ≤ first.1 then some (.at first)
      else if last.1 ≤ position then some (.at last)
      else bracket position nodes
  | _, _ => none

/-- Two positions on the same side of every node have the same neighbours. -/
theorem bracket_congr {nodes : List (K × β)} {x y : K}
    (same : ∀ node ∈ nodes, (node.1 ≤ x ↔ node.1 ≤ y) ∧ (x ≤ node.1 ↔ y ≤ node.1)) :
    bracket x nodes = bracket y nodes := by
  induction nodes with
  | nil => rfl
  | cons left rest inductionHypothesis =>
      cases rest with
      | nil => rfl
      | cons right rest =>
          have tail := inductionHypothesis fun node member =>
            same node (List.mem_cons_of_mem _ member)
          have leftSame := (same left List.mem_cons_self).1
          have rightSame := (same right (List.mem_cons_of_mem _ List.mem_cons_self)).2
          rw [bracket, bracket, tail]
          simp only [leftSame, rightSame]

theorem locate_congr {nodes : List (K × β)} {x y : K}
    (same : ∀ node ∈ nodes, (node.1 ≤ x ↔ node.1 ≤ y) ∧ (x ≤ node.1 ↔ y ≤ node.1)) :
    locate nodes x = locate nodes y := by
  unfold locate
  split
  · rename_i first last isFirst isLast
    have firstSame := (same first (List.mem_of_mem_head? isFirst)).2
    have lastSame := (same last (List.mem_of_mem_getLast? isLast)).1
    simp only [firstSame, lastSame, bracket_congr same]
  · rfl

/-- Successive nodes are found for the positions between them. -/
theorem exists_of_bracket_eq {nodes : List (K × β)} {x : K} {found : Found K β}
    (bracketed : bracket x nodes = some found) : ∃ i left right, found = .between left right ∧
      nodes[i]? = some left ∧ nodes[i + 1]? = some right ∧ left.1 ≤ x ∧ x ≤ right.1 := by
  induction nodes with
  | nil => contradiction
  | cons left rest inductionHypothesis =>
      cases rest with
      | nil => contradiction
      | cons right rest =>
          rw [bracket] at bracketed
          split at bracketed
          · rename_i inside
            cases bracketed
            exact ⟨0, left, right, rfl, rfl, rfl, inside.1, inside.2⟩
          · obtain ⟨i, lower, upper, between, hasLower, hasUpper, inside⟩ :=
              inductionHypothesis bracketed
            exact ⟨i + 1, lower, upper, between, hasLower, hasUpper, inside⟩

/-! ## Increasing nodes -/

/-- Nodes at increasing positions are related as their positions are ordered. -/
theorem related_of_le {related : K × β → K × β → Prop} {nodes : List (K × β)}
    (pairwise : nodes.Pairwise related)
    (increasing : ∀ left right, related left right → left.1 < right.1) {left right : K × β}
    (hasLeft : left ∈ nodes) (hasRight : right ∈ nodes) (ordered : left.1 ≤ right.1) :
    left = right ∨ related left right := by
  induction pairwise with
  | nil => contradiction
  | cons before _ inductionHypothesis =>
      rcases List.mem_cons.mp hasLeft with rfl | leftLater
      · rcases List.mem_cons.mp hasRight with rfl | rightLater
        · exact .inl rfl
        · exact .inr (before _ rightLater)
      · rcases List.mem_cons.mp hasRight with rfl | rightLater
        · exact absurd (increasing _ _ (before _ leftLater)) (not_lt.mpr ordered)
        · exact inductionHypothesis leftLater rightLater

variable [Preorder β]

/-- The positions increase and the values do not decrease. -/
def Increasing (nodes : List (K × β)) : Prop :=
  nodes.Pairwise fun left right => left.1 < right.1 ∧ left.2 ≤ right.2

theorem Increasing.value_le {nodes : List (K × β)} (increasing : Increasing nodes)
    {left right : K × β} (hasLeft : left ∈ nodes) (hasRight : right ∈ nodes)
    (ordered : left.1 ≤ right.1) : left.2 ≤ right.2 := by
  have positions : ∀ left right : K × β, left.1 < right.1 ∧ left.2 ≤ right.2 →
      left.1 < right.1 := fun _ _ both => both.1
  rcases related_of_le increasing positions hasLeft hasRight ordered with rfl | both
  · exact le_refl _
  · exact both.2

theorem Increasing.head_le {nodes : List (K × β)} (increasing : Increasing nodes)
    {first node : K × β} (isFirst : nodes.head? = some first) (member : node ∈ nodes) :
    first.1 ≤ node.1 := by
  obtain ⟨rest, rfl⟩ := List.head?_eq_some_iff.mp isFirst
  rcases List.mem_cons.mp member with rfl | later
  · exact le_refl _
  · exact ((List.pairwise_cons.mp increasing).1 node later).1.le

theorem Increasing.le_getLast {nodes : List (K × β)} (increasing : Increasing nodes)
    {last node : K × β} (isLast : nodes.getLast? = some last) (member : node ∈ nodes) :
    node.1 ≤ last.1 := by
  obtain ⟨rest, rfl⟩ := List.getLast?_eq_some_iff.mp isLast
  rcases List.mem_append.mp member with earlier | same
  · have before := (List.pairwise_append.mp increasing).2.2 node earlier last
      (List.mem_singleton_self _)
    exact before.1.le
  · rw [List.mem_singleton.mp same]

/-- Nodes at one position are one node. -/
theorem Increasing.eq_of_fst_eq {nodes : List (K × β)} (increasing : Increasing nodes)
    {left right : K × β} (hasLeft : left ∈ nodes) (hasRight : right ∈ nodes)
    (same : left.1 = right.1) : left = right := by
  rcases related_of_le increasing (fun _ _ both => both.1) hasLeft hasRight same.le with
    equal | both
  · exact equal
  · exact absurd same both.1.ne

/-- No node lies between two successive ones. -/
theorem Increasing.apart {nodes : List (K × β)} (increasing : Increasing nodes) {i : Nat}
    {left right : K × β} (hasLeft : nodes[i]? = some left) (hasRight : nodes[i + 1]? = some right) :
    left.1 < right.1 ∧ ∀ node ∈ nodes, node.1 ≤ left.1 ∨ right.1 ≤ node.1 := by
  obtain ⟨inLeft, rfl⟩ := List.getElem?_eq_some_iff.mp hasLeft
  obtain ⟨inRight, rfl⟩ := List.getElem?_eq_some_iff.mp hasRight
  have pairwise := List.pairwise_iff_getElem.mp increasing
  refine ⟨(pairwise _ _ inLeft inRight (Nat.lt_succ_self i)).1, fun node member => ?_⟩
  obtain ⟨j, inside, rfl⟩ := List.getElem_of_mem member
  rcases Nat.lt_trichotomy j i with below | rfl | above
  · exact Or.inl (pairwise _ _ inside inLeft below).1.le
  · exact Or.inl le_rfl
  · rcases Nat.eq_or_lt_of_le (Nat.succ_le_of_lt above) with next | later
    · subst next
      exact Or.inr le_rfl
    · exact Or.inr (pairwise _ _ inRight inside later).1.le

/-- Two nodes around a position between which there is no other node. -/
structure Neighbours (nodes : List (K × β)) (position : K) (left right : K × β) : Prop where
  hasLeft : left ∈ nodes
  hasRight : right ∈ nodes
  lt : left.1 < right.1
  le : left.2 ≤ right.2
  after : left.1 ≤ position
  before : position ≤ right.1
  apart : ∀ node ∈ nodes, node.1 ≤ left.1 ∨ right.1 ≤ node.1

/-- The first two nodes are neighbours. -/
theorem Increasing.neighbours_head {left right : K × β} {rest : List (K × β)}
    (increasing : Increasing (left :: right :: rest)) {position : K} (after : left.1 ≤ position)
    (before : position ≤ right.1) : Neighbours (left :: right :: rest) position left right := by
  have ordered := List.pairwise_cons.mp increasing
  have next := ordered.1 right List.mem_cons_self
  constructor
  case hasLeft => exact List.mem_cons_self
  case hasRight => exact List.mem_cons_of_mem _ List.mem_cons_self
  case lt => exact next.1
  case le => exact next.2
  case after => exact after
  case before => exact before
  case apart =>
    intro node member
    rcases List.mem_cons.mp member with rfl | later
    · exact .inl (le_refl _)
    · exact .inr (Increasing.head_le ordered.2 rfl later)

/-- Neighbours stay neighbours with one more node before them. -/
theorem Neighbours.cons {first left right : K × β} {nodes : List (K × β)} {position : K}
    (neighbours : Neighbours nodes position left right) (increasing : Increasing (first :: nodes)) :
    Neighbours (first :: nodes) position left right := by
  have ordered := List.pairwise_cons.mp increasing
  constructor
  case hasLeft => exact List.mem_cons_of_mem _ neighbours.hasLeft
  case hasRight => exact List.mem_cons_of_mem _ neighbours.hasRight
  case lt => exact neighbours.lt
  case le => exact neighbours.le
  case after => exact neighbours.after
  case before => exact neighbours.before
  case apart =>
    intro node member
    rcases List.mem_cons.mp member with rfl | later
    · exact .inl (ordered.1 _ neighbours.hasLeft).1.le
    · exact neighbours.apart node later

/-- The search finds the neighbours of a position between the first and the last node. -/
theorem Increasing.bracket_eq {nodes : List (K × β)} (increasing : Increasing nodes)
    {position : K} {first last : K × β} (isFirst : nodes.head? = some first)
    (after : first.1 ≤ position) (isLast : nodes.getLast? = some last)
    (before : position < last.1) :
    ∃ left right, bracket position nodes = some (.between left right) ∧
      Neighbours nodes position left right := by
  induction nodes generalizing first with
  | nil => contradiction
  | cons left rest inductionHypothesis =>
      cases isFirst
      cases rest with
      | nil =>
          cases isLast
          exact absurd before (not_lt.mpr after)
      | cons right rest =>
          by_cases inside : position ≤ right.1
          · have neighbours := increasing.neighbours_head after inside
            exact ⟨left, right, if_pos ⟨after, inside⟩, neighbours⟩
          · have lastLater : (right :: rest).getLast? = some last := by
              rw [← isLast, List.getLast?_cons_cons]
            obtain ⟨lower, upper, result, neighbours⟩ := inductionHypothesis
              (List.pairwise_cons.mp increasing).2 rfl (not_le.mp inside).le lastLater
            rw [bracket, if_neg fun both => inside both.2]
            exact ⟨lower, upper, result, neighbours.cons increasing⟩

/-- What may be found for a position. -/
inductive Encloses (nodes : List (K × β)) (position : K) : Found K β → Prop
  | below {first : K × β} : first ∈ nodes → position ≤ first.1 →
      (∀ node ∈ nodes, first.1 ≤ node.1) → Encloses nodes position (.at first)
  | above {last : K × β} : last ∈ nodes → last.1 ≤ position →
      (∀ node ∈ nodes, node.1 ≤ last.1) → Encloses nodes position (.at last)
  | between {left right : K × β} : Neighbours nodes position left right →
      Encloses nodes position (.between left right)

/-- Every position is located among some nodes. -/
theorem Increasing.locate_eq {nodes : List (K × β)} (increasing : Increasing nodes)
    (nonempty : nodes ≠ []) (position : K) :
    ∃ found, locate nodes position = some found ∧ Encloses nodes position found := by
  have isFirst := List.head?_eq_some_head nonempty
  have isLast := List.getLast?_eq_some_getLast nonempty
  have least := fun node (member : node ∈ nodes) => increasing.head_le isFirst member
  have greatest := fun node (member : node ∈ nodes) => increasing.le_getLast isLast member
  simp only [locate, isFirst, isLast]
  by_cases low : position ≤ (nodes.head nonempty).1
  · rw [if_pos low]
    exact ⟨_, rfl, .below (List.head_mem nonempty) low least⟩
  · rw [if_neg low]
    by_cases high : (nodes.getLast nonempty).1 ≤ position
    · rw [if_pos high]
      exact ⟨_, rfl, .above (List.getLast_mem nonempty) high greatest⟩
    · rw [if_neg high]
      obtain ⟨left, right, result, neighbours⟩ :=
        increasing.bracket_eq isFirst (not_le.mp low).le isLast (not_le.mp high)
      exact ⟨_, result, .between neighbours⟩

/-! ## Interpolants -/

/-- The value on what was found, given the values on the lines. -/
def Found.value (line : K × β → K × β → K → β) (position : K) : Found K β → β
  | .at node => node.2
  | .between left right => line left right position

/-- The value at the node found, or on the line between the two nodes found. -/
def interpolate (line : K × β → K × β → K → β) (nodes : List (K × β)) (position : K) :
    Option β :=
  (locate nodes position).map (Found.value line position)

/-- Between two of the nodes a line stays between their values and does not fall. -/
structure Rising (line : K × β → K × β → K → β) (nodes : List (K × β)) : Prop where
  le_line : ∀ left ∈ nodes, ∀ right ∈ nodes, ∀ x, left.1 < right.1 → left.2 ≤ right.2 →
    left.1 ≤ x → left.2 ≤ line left right x
  line_le : ∀ left ∈ nodes, ∀ right ∈ nodes, ∀ x, left.1 < right.1 → left.2 ≤ right.2 →
    x ≤ right.1 → line left right x ≤ right.2
  mono : ∀ left ∈ nodes, ∀ right ∈ nodes, ∀ x y, left.1 < right.1 → left.2 ≤ right.2 →
    x ≤ y → line left right x ≤ line left right y

section Rising

variable {line : K × β → K × β → K → β} {nodes : List (K × β)}

/-- The interpolant lies between the values of two nodes. -/
theorem Rising.value_bounds (rising : Rising line nodes) {position : K} {found : Found K β}
    (encloses : Encloses nodes position found) :
    (∃ node ∈ nodes, node.2 ≤ found.value line position) ∧
      ∃ node ∈ nodes, found.value line position ≤ node.2 := by
  cases encloses with
  | below member _ _ => exact ⟨⟨_, member, le_refl _⟩, ⟨_, member, le_refl _⟩⟩
  | above member _ _ => exact ⟨⟨_, member, le_refl _⟩, ⟨_, member, le_refl _⟩⟩
  | between neighbours =>
      constructor
      · exact ⟨_, neighbours.hasLeft, rising.le_line _ neighbours.hasLeft _ neighbours.hasRight _
          neighbours.lt neighbours.le neighbours.after⟩
      · exact ⟨_, neighbours.hasRight, rising.line_le _ neighbours.hasLeft _ neighbours.hasRight _
          neighbours.lt neighbours.le neighbours.before⟩

/-- From a node on the interpolant is at least its value. -/
theorem Rising.le_value (rising : Rising line nodes) (increasing : Increasing nodes)
    {position : K} {found : Found K β} (encloses : Encloses nodes position found)
    {node : K × β} (member : node ∈ nodes) (before : node.1 ≤ position)
    (apart : node.1 ≠ position) : node.2 ≤ found.value line position := by
  cases encloses with
  | below hasFirst atFirst _ =>
      exact increasing.value_le member hasFirst (before.trans atFirst)
  | above hasLast _ greatest =>
      exact increasing.value_le member hasLast (greatest node member)
  | between neighbours =>
      have notRight : ¬ _ ≤ node.1 := not_le.mpr ((lt_of_le_of_ne before apart).trans_le
        neighbours.before)
      have notAfter := (neighbours.apart node member).resolve_right notRight
      calc
        node.2 ≤ _ := increasing.value_le member neighbours.hasLeft notAfter
        _ ≤ _ := rising.le_line _ neighbours.hasLeft _ neighbours.hasRight _
          neighbours.lt neighbours.le neighbours.after

/-- Up to a node the interpolant is at most its value. -/
theorem Rising.value_le (rising : Rising line nodes) (increasing : Increasing nodes)
    {position : K} {found : Found K β} (encloses : Encloses nodes position found)
    {node : K × β} (member : node ∈ nodes) (after : position ≤ node.1)
    (apart : node.1 ≠ position) : found.value line position ≤ node.2 := by
  cases encloses with
  | below hasFirst _ least =>
      exact increasing.value_le hasFirst member (least node member)
  | above hasLast atLast _ =>
      exact increasing.value_le hasLast member (atLast.trans after)
  | between neighbours =>
      have notLeft : ¬ node.1 ≤ _ := not_le.mpr (neighbours.after.trans_lt
        (lt_of_le_of_ne after apart.symm))
      have notBefore := (neighbours.apart node member).resolve_left notLeft
      calc
        _ ≤ _ := rising.line_le _ neighbours.hasLeft _ neighbours.hasRight _
          neighbours.lt neighbours.le neighbours.before
        _ ≤ node.2 := increasing.value_le neighbours.hasRight member notBefore

/-- On one piece the interpolant does not fall. -/
theorem Rising.value_mono (rising : Rising line nodes) {x y : K} {found : Found K β}
    (encloses : Encloses nodes x found) (ordered : x ≤ y) :
    found.value line x ≤ found.value line y := by
  cases encloses with
  | below _ _ _ => exact le_refl _
  | above _ _ _ => exact le_refl _
  | between neighbours =>
      exact rising.mono _ neighbours.hasLeft _ neighbours.hasRight _ _ neighbours.lt
        neighbours.le ordered

end Rising

/-! ## Straight lines -/

section Straight

variable {F : Type u} [Field F] [LinearOrder F] [IsStrictOrderedRing F]

/-- The straight line through two nodes. -/
def lerp (left right : F × F) (position : F) : F :=
  left.2 + (right.2 - left.2) * (position - left.1) / (right.1 - left.1)

omit [LinearOrder F] [IsStrictOrderedRing F] in
theorem lerp_left (left right : F × F) : lerp left right left.1 = left.2 := by
  simp [lerp]

theorem lerp_right {left right : F × F} (ordered : left.1 < right.1) :
    lerp left right right.1 = right.2 := by
  have width : right.1 - left.1 ≠ 0 := (sub_pos.mpr ordered).ne'
  rw [lerp, mul_div_assoc, div_self width]
  ring

theorem lerp_weight {left right : F × F} (ordered : left.1 < right.1) (t : F) :
    lerp left right (left.1 + t * (right.1 - left.1)) = left.2 + t * (right.2 - left.2) := by
  have width : right.1 - left.1 ≠ 0 := (sub_pos.mpr ordered).ne'
  rw [lerp]
  field_simp
  ring

theorem lerp_mono {left right : F × F} (ordered : left.1 < right.1) (values : left.2 ≤ right.2)
    {x y : F} (before : x ≤ y) : lerp left right x ≤ lerp left right y := by
  have width : 0 < right.1 - left.1 := sub_pos.mpr ordered
  have height : 0 ≤ right.2 - left.2 := sub_nonneg.mpr values
  unfold lerp
  gcongr

theorem rising_lerp (nodes : List (F × F)) : Rising lerp nodes := by
  constructor
  case le_line =>
    intro left _ right _ x ordered values after
    calc
      left.2 = lerp left right left.1 := (lerp_left left right).symm
      _ ≤ lerp left right x := lerp_mono ordered values after
  case line_le =>
    intro left _ right _ x ordered values before
    calc
      lerp left right x ≤ lerp left right right.1 := lerp_mono ordered values before
      _ = right.2 := lerp_right ordered
  case mono =>
    intro left _ right _ x y ordered values before
    exact lerp_mono ordered values before

/-! ## Piecewise linear functions -/

/-- The function is constant up to the first and from the last node on, and goes
along straight lines from node to node. -/
structure PiecewiseLinear (nodes : List (F × F)) (f : F → F) : Prop where
  before : ∀ first, nodes.head? = some first → ∀ x, x ≤ first.1 → f x = first.2
  after : ∀ last, nodes.getLast? = some last → ∀ x, last.1 ≤ x → f x = last.2
  between : ∀ i left right, nodes[i]? = some left → nodes[i + 1]? = some right →
    ∀ t, 0 ≤ t → t ≤ 1 →
      f (left.1 + t * (right.1 - left.1)) = left.2 + t * (right.2 - left.2)

/-- Increasing nodes decide the function. -/
theorem PiecewiseLinear.eq_value {nodes : List (F × F)} {f : F → F}
    (linear : PiecewiseLinear nodes f) (increasing : Increasing nodes) {x : F}
    {found : Found F F} (located : locate nodes x = some found) : f x = found.value lerp x := by
  unfold locate at located
  split at located
  · rename_i first last isFirst isLast
    split at located
    · rename_i low
      cases located
      exact linear.before first isFirst x low
    · split at located
      · rename_i high
        cases located
        exact linear.after last isLast x high
      · obtain ⟨i, left, right, rfl, hasLeft, hasRight, after, before⟩ :=
          exists_of_bracket_eq located
        have ordered := (increasing.apart hasLeft hasRight).1
        have width : 0 < right.1 - left.1 := sub_pos.mpr ordered
        have position : left.1 + (x - left.1) / (right.1 - left.1) * (right.1 - left.1) = x := by
          rw [div_mul_cancel₀ _ width.ne']
          ring
        have onLine := linear.between i left right hasLeft hasRight
          ((x - left.1) / (right.1 - left.1)) (div_nonneg (sub_nonneg.mpr after) width.le)
          ((div_le_one width).mpr (sub_le_sub_right before _))
        have line := lerp_weight ordered ((x - left.1) / (right.1 - left.1))
        rw [position] at onLine line
        rw [onLine, ← line]
        rfl
  · contradiction

/-- On the line of two neighbours, whichever of them was found. -/
theorem Encloses.value_of_successive {nodes : List (F × F)} (increasing : Increasing nodes)
    {x : F} {found : Found F F} (encloses : Encloses nodes x found) {i : Nat} {left right : F × F}
    (hasLeft : nodes[i]? = some left) (hasRight : nodes[i + 1]? = some right)
    (after : left.1 ≤ x) (before : x ≤ right.1) :
    found.value lerp x = lerp left right x := by
  obtain ⟨ordered, apart⟩ := increasing.apart hasLeft hasRight
  have inLeft := List.mem_of_getElem? hasLeft
  have inRight := List.mem_of_getElem? hasRight
  cases encloses with
  | @below first hasFirst atFirst least =>
      have same : first = left := increasing.eq_of_fst_eq hasFirst inLeft
        ((least left inLeft).antisymm (after.trans atFirst))
      subst same
      have position : x = first.1 := atFirst.antisymm after
      rw [position, lerp_left]
      rfl
  | @above last hasLast atLast greatest =>
      have same : last = right := increasing.eq_of_fst_eq hasLast inRight
        ((atLast.trans before).antisymm (greatest right inRight))
      subst same
      have position : x = last.1 := before.antisymm atLast
      rw [position, lerp_right ordered]
      rfl
  | @between lower upper neighbours =>
      rcases apart lower neighbours.hasLeft with lowerLeft | lowerRight
      · rcases apart upper neighbours.hasRight with upperLeft | upperRight
        · -- the position is the left end, where the piece before ends
          have same : upper = left := increasing.eq_of_fst_eq neighbours.hasRight inLeft
            (upperLeft.antisymm (after.trans neighbours.before))
          subst same
          have position : x = upper.1 := neighbours.before.antisymm after
          rw [position, lerp_left]
          exact lerp_right neighbours.lt
        · rcases neighbours.apart left inLeft with leftLower | leftUpper
          · have sameLower : lower = left := increasing.eq_of_fst_eq neighbours.hasLeft inLeft
              (lowerLeft.antisymm leftLower)
            rcases neighbours.apart right inRight with rightLower | rightUpper
            · exact absurd (ordered.trans_le (rightLower.trans lowerLeft)) (lt_irrefl _)
            · have sameUpper : upper = right := increasing.eq_of_fst_eq neighbours.hasRight inRight
                (rightUpper.antisymm upperRight)
              rw [sameLower, sameUpper]
              rfl
          · exact absurd (ordered.trans_le (upperRight.trans leftUpper)) (lt_irrefl _)
      · -- the position is the right end, where the piece after begins
        have same : lower = right := increasing.eq_of_fst_eq neighbours.hasLeft inRight
          ((neighbours.after.trans before).antisymm lowerRight)
        subst same
        have position : x = lower.1 := before.antisymm neighbours.after
        rw [position, lerp_right ordered]
        exact lerp_left _ _

/-- The interpolant through increasing nodes along straight lines. -/
theorem Increasing.piecewiseLinear {nodes : List (F × F)} (increasing : Increasing nodes)
    (nonempty : nodes ≠ []) (other : F) :
    PiecewiseLinear nodes fun x => (interpolate lerp nodes x).getD other := by
  have isFirst := List.head?_eq_some_head nonempty
  have isLast := List.getLast?_eq_some_getLast nonempty
  have value (x : F) : ∃ found, locate nodes x = some found ∧ Encloses nodes x found ∧
      (interpolate lerp nodes x).getD other = found.value lerp x := by
    obtain ⟨found, located, encloses⟩ := increasing.locate_eq nonempty x
    exact ⟨found, located, encloses, by simp [interpolate, located]⟩
  constructor
  case before =>
    intro first head x low
    rw [isFirst] at head
    cases head
    simp [interpolate, locate, isFirst, isLast, low, Found.value]
  case after =>
    intro last tail x high
    rw [isLast] at tail
    cases tail
    by_cases low : x ≤ (nodes.head nonempty).1
    · have same : nodes.head nonempty = nodes.getLast nonempty :=
        increasing.eq_of_fst_eq (List.head_mem _) (List.getLast_mem _)
          ((increasing.head_le isFirst (List.getLast_mem _)).antisymm (high.trans low))
      have located : locate nodes x = some (.at (nodes.head nonempty)) := by
        simp [locate, isFirst, isLast, low]
      rw [interpolate, located]
      exact congrArg Prod.snd same
    · simp [interpolate, locate, isFirst, isLast, low, high, Found.value]
  case between =>
    intro i left right hasLeft hasRight t nonneg le
    obtain ⟨ordered, _⟩ := increasing.apart hasLeft hasRight
    have width : 0 < right.1 - left.1 := sub_pos.mpr ordered
    obtain ⟨found, _, encloses, same⟩ := value (left.1 + t * (right.1 - left.1))
    have after : left.1 ≤ left.1 + t * (right.1 - left.1) :=
      le_add_of_nonneg_right (mul_nonneg nonneg width.le)
    have before : left.1 + t * (right.1 - left.1) ≤ right.1 := by
      calc
        left.1 + t * (right.1 - left.1) ≤ left.1 + (right.1 - left.1) := by
          gcongr
          exact mul_le_of_le_one_left width.le le
        _ = right.1 := by ring
    rw [same, encloses.value_of_successive increasing hasLeft hasRight after before,
      lerp_weight ordered]

end Straight

end Schtest.Numeric
