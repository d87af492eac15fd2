import Headfirst.Proofs.Seams

namespace Headfirst

open Headfirst.Tree

/-! What the scan for an operand finds behind it.

The trees that the scan can reach hold no marker any more.  So a `::` among them is part
of a path, and the scan never stops right behind it: it goes on over every `::`, unless an
invisible group has ended it, and in front of an invisible group no `::` belongs to a path.
At the edge of the reach stands the start of the sequence or an occurrence that was left
untouched, whose marker is a marker whatever invisible group comes after it. -/

/-- The siblings `before` in front of `next`, nearest first: none of those in reach is a
marker, and if the one just beyond is a `::` it is one. -/
def Settled : (reach : Nat) → (before : List Tree) → (next : Option Tree) → Prop
  | _, [], _ => True
  | 0, tree :: _, next => tree.isPunct "::" = true → Marker.test tree next = true
  | reach + 1, tree :: before, next =>
      Marker.test tree next = false ∧ Settled reach before (some tree)

theorem getLast?_take_cons (count : Nat) (tree : Tree) (before : List Tree) (next : Option Tree) :
    ((tree :: before).take (count + 1)).getLast?.or next =
      (before.take count).getLast?.or (some tree) := by
  rw [List.take_succ_cons, List.getLast?_cons]
  cases (before.take count).getLast? <;> rfl

namespace Settled

variable {reach count : Nat} {before : List Tree} {tree : Tree} {next other : Option Tree}

theorem nil (reach : Nat) (next : Option Tree) : Settled reach [] next := by
  cases reach <;> trivial

theorem congr (settled : Settled reach before next)
    (same : ∀ tree, before.head? = some tree → Marker.test tree other = Marker.test tree next) :
    Settled reach before other := by
  cases before with
  | nil => exact nil reach other
  | cons tree before =>
      have equal := same tree rfl
      cases reach with
      | zero =>
          intro separator
          rw [equal]
          exact settled separator
      | succ reach => exact ⟨equal ▸ settled.1, settled.2⟩

theorem drop (settled : Settled reach before next) (within : count ≤ reach) :
    Settled (reach - count) (before.drop count) ((before.take count).getLast?.or next) := by
  induction count generalizing reach before next with
  | zero => simpa using settled
  | succ count ih =>
      cases before with
      | nil => exact nil ..
      | cons tree before =>
          cases reach with
          | zero => omega
          | succ reach =>
              have rest := ih settled.2 (by omega)
              rw [getLast?_take_cons, List.drop_succ_cons]
              simpa using rest

end Settled

namespace Operand

variable {reach : Nat} {before operand : List Tree} {next marker replacement : Tree}

theorem extent_le_reach (reach : Nat) (before : List Tree) (next : Tree) :
    extent reach before next ≤ reach := by
  fun_induction extent reach before next <;> simp_all

theorem not_separator_of_isBoundary {tree : Tree} (boundary : isBoundary tree = true) :
    tree.isPunct "::" = false := by
  cases tree with
  | group bracket children => rfl
  | leaf token =>
      rw [Bool.eq_false_iff]
      intro separator
      simp only [Tree.isPunct, Tree.anyToken, Token.isPunct, Bool.and_eq_true,
        beq_iff_eq] at separator
      simp [isBoundary, Tree.isPunctIn, Tree.isKeywordIn, Tree.anyToken, Token.isReserved,
        terminators, bindingIntroducers, separator.1, separator.2] at boundary

theorem not_separator_of_closesBlockStatement {tree : Tree} {following : Option Tree}
    (closes : closesBlockStatement before tree following = true) :
    tree.isPunct "::" = false := by
  simp only [closesBlockStatement, Bool.and_eq_true] at closes
  exact isPunct_of_isGroup closes.1.1 "::"

/-- The tree in front of an operand is a marker before an invisible group if and only if
it is one before the operand. -/
theorem test_before_extent (settled : Settled reach before (some next))
    (invisible : replacement.isInvisible = true) {tree : Tree}
    (stop : (before.drop (extent reach before next)).head? = some tree) :
    Marker.test tree (some replacement) =
      Marker.test tree ((before.take (extent reach before next)).getLast?.or (some next)) := by
  fun_induction extent reach before next with
  | case1 before next =>
      cases before with
      | nil => contradiction
      | cons nearest before =>
          cases stop
          rw [Marker.test_of_isInvisible invisible]
          by_cases separator : tree.isPunct "::" = true
          · rw [separator]
            exact (settled separator).symm
          · rw [Bool.not_eq_true] at separator
            rw [separator, Marker.test_eq_false separator]
  | case2 => contradiction
  | case3 reach nearest before next stops =>
      cases stop
      have harmless : tree.isPunct "::" = false := by
        rcases Bool.or_eq_true_iff.mp stops with boundary | closes
        · exact not_separator_of_isBoundary boundary
        · exact not_separator_of_closesBlockStatement closes
      rw [Marker.test_eq_false harmless, Marker.test_eq_false harmless]
  | case4 reach nearest before next goesOn invisibleNearest =>
      rw [Marker.test_of_isInvisible invisible]
      exact (Marker.test_of_isInvisible invisibleNearest).symm
  | case5 reach nearest before next goesOn visible ih =>
      rw [getLast?_take_cons]
      exact ih settled.2 (by simpa using stop)

/-- The nearest tree of an operand, which is its last one, is no `::`. -/
theorem ends_take (taken : take reach before marker = .ok operand) :
    EndsHarmlessly operand.reverse := by
  unfold take at taken
  split at taken
  · contradiction
  · rename_i last others found
    suffices harmless : last.isPunct "::" = false ∧ operand = last :: others by
      rw [harmless.2, List.reverse_cons]
      exact endsHarmlessly_concat _ harmless.1
    split at taken
    · rename_i token
      split at taken
      · contradiction
      · rename_i dangling
        cases taken
        refine ⟨?_, rfl⟩
        rw [Bool.eq_false_iff]
        intro separator
        simp only [Tree.isPunct, Tree.anyToken, Token.isPunct, Bool.and_eq_true,
          beq_iff_eq] at separator
        simp [Tree.isPunctIn, Tree.anyToken, danglingOperators, separator.1,
          separator.2] at dangling
    · cases taken
      exact ⟨rfl, rfl⟩

theorem length_le_reach (reach : Nat) (before : List Tree) : length reach before ≤ reach := by
  unfold length
  split
  · simp
  · simp
  · rename_i reach tree before
    have := extent_le_reach reach before tree
    repeat' split
    all_goals omega

theorem test_before_length (settled : Settled reach before (some marker))
    (invisible : replacement.isInvisible = true) (nonempty : 0 < length reach before) {tree : Tree}
    (stop : (before.drop (length reach before)).head? = some tree) :
    Marker.test tree (some replacement) =
      Marker.test tree ((before.take (length reach before)).getLast?.or (some marker)) := by
  unfold length at stop nonempty ⊢
  split at stop
  · simp at nonempty
  · simp at nonempty
  · rename_i reach nearest before
    by_cases boundary : isBoundary nearest = true
    · simp [boundary] at nonempty
    · by_cases invisibleNearest : nearest.isInvisible = true
      · simp only [boundary, invisibleNearest, Bool.false_eq_true, if_false, if_true] at stop ⊢
        rw [Marker.test_of_isInvisible invisible]
        exact (Marker.test_of_isInvisible invisibleNearest).symm
      · simp only [boundary, invisibleNearest, Bool.false_eq_true, if_false] at stop ⊢
        rw [getLast?_take_cons]
        exact test_before_extent settled.2 invisible (by simpa using stop)

end Operand

end Headfirst
