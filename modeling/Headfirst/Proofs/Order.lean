import Headfirst.Proofs.Places
import Headfirst.Proofs.Reading

namespace Headfirst

/-! The places of a fragment that was read: they are in the order of the text, so no two trees
of it are at one place. -/

namespace Loc

/-- Whether a place comes first in the text. -/
def Before (first second : Loc) : Prop :=
  first.line < second.line ∨ first.line = second.line ∧ first.col < second.col

variable {first second third : Loc}

theorem Before.trans (left : first.Before second) (right : second.Before third) :
    first.Before third := by
  unfold Before at *
  omega

theorem before_next (loc : Loc) (char : Char) : loc.Before (loc.next char) := by
  unfold Before next
  split
  · exact .inl (Int.lt_succ _)
  · exact .inr ⟨rfl, Int.lt_succ _⟩

theorem line_le_next (loc : Loc) (char : Char) : loc.line ≤ (loc.next char).line := by
  unfold next
  split
  · exact Int.le_of_lt (Int.lt_succ _)
  · exact Int.le_refl _

theorem line_le_past (loc : Loc) (text : List Char) : loc.line ≤ (loc.past text).line := by
  induction text generalizing loc with
  | nil => exact Int.le_refl _
  | cons char rest ih => exact Int.le_trans (line_le_next loc char) (ih (loc.next char))

theorem Before.past (before : first.Before second) (text : List Char) :
    first.Before (second.past text) := by
  induction text generalizing second with
  | nil => exact before
  | cons char rest ih => exact ih (before.trans (before_next second char))

end Loc

namespace Fragment

/-- Places that have been read up to `loc`, in the order of the text. -/
structure InOrder (seen : List Loc) (loc : Loc) : Prop where
  known : 0 < loc.line
  seenKnown : ∀ place ∈ seen, 0 < place.line
  sorted : seen.Pairwise Loc.Before
  behind : ∀ place ∈ seen, place.Before loc

namespace InOrder

variable {seen : List Loc} {loc : Loc}

theorem past (order : InOrder seen loc) (text : List Char) : InOrder seen (loc.past text) where
  known := Int.lt_of_lt_of_le order.known (loc.line_le_past text)
  seenKnown := order.seenKnown
  sorted := order.sorted
  behind place member := (order.behind place member).past text

/-- A tree or an opening bracket is read at the present place. -/
theorem read (order : InOrder seen loc) (char : Char) (text : List Char) :
    InOrder (seen ++ [loc]) (loc.past (char :: text)) where
  known := Int.lt_of_lt_of_le order.known (loc.line_le_past (char :: text))
  seenKnown := List.forall_mem_append.mpr
    ⟨order.seenKnown, List.forall_mem_singleton.mpr order.known⟩
  sorted := List.pairwise_append.mpr
    ⟨order.sorted, List.pairwise_singleton .., fun place member other single => by
      rw [List.mem_singleton.mp single]
      exact order.behind place member⟩
  behind := List.forall_mem_append.mpr
    ⟨fun place member => (order.behind place member).past (char :: text),
      List.forall_mem_singleton.mpr ((loc.before_next char).past text)⟩

end InOrder

/-- The places around the innermost open bracket, and its own. -/
def Opened.locsAll : List Opened → List Loc
  | [] => []
  | bracket :: outer =>
      locsAll outer ++ Tree.locsAll bracket.before.reverse ++ [bracket.spot.loc]

/-- The scan goes from place to place in the order of the text. -/
theorem preserved_inOrder :
    PreservedAt fun opened before loc _ =>
      InOrder (Opened.locsAll opened ++ Tree.locsAll before.reverse) loc where
  opener {opened before start loc text gap char rest delimiter} order same here found opens := by
    have next := (order.past gap).read char []
    rw [here] at next
    rw [Opened.locsAll, List.reverse_nil, Tree.locsAll, List.append_nil]
    exact next
  closer {innermost opened before start loc text gap char rest delimiter} order same here found
      closes opens := by
    have next := (order.past gap).past [char]
    rw [here] at next
    change InOrder _ (loc.next char) at next
    simpa [Opened.locsAll, Tree.locsAll, Tree.locs] using next
  token {opened before start loc text gap char rest kind further} order same here found token := by
    have next := (order.past gap).read char (rest.take further)
    rw [here] at next
    simpa [Tree.locsAll, Tree.locs] using next

variable {source file : String} {fragment : Fragment}

/-- The places of a fragment that was read are known, and each comes before the next. -/
theorem inOrder_of_read (done : read source file = .ok fragment) :
    (Tree.locsAll fragment.children).Pairwise Loc.Before ∧
      ∀ tree ∈ fragment.children, tree.IsPlaced (Tree.locsAll fragment.children) := by
  have start : InOrder (Opened.locsAll [] ++ Tree.locsAll [].reverse) (.start file) := by
    refine ⟨Int.zero_lt_one, ?_, .nil, ?_⟩
    · exact fun place member => absurd member List.not_mem_nil
    · exact fun place member => absurd member List.not_mem_nil
  obtain ⟨loc, order⟩ := preserved_inOrder.of_read start done
  rw [List.reverse_reverse, Opened.locsAll, List.nil_append] at order
  refine ⟨order.sorted, ?_⟩
  rw [Tree.forall_isPlaced_iff]
  exact fun place member => ⟨member, order.seenKnown place member⟩

end Fragment

end Headfirst
