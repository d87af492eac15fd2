import Headfirst.Proofs.Walk

namespace Headfirst

open Headfirst.Tree

/-! Why a marker cannot be resolved, seen at its sequence alone.

Where every marker in front of it is left untouched, the floor at a marker is the end of the
occurrence in front of it.  So nothing is in reach if that occurrence ends right there, and
otherwise there is an operand unless the nearest tree is the end of none. -/

namespace Site

/-- Whether the nearest trees are a marker, a marker with a head, or a marker with a head and
a block.  An occurrence that is left untouched ends there, and nothing behind it is in reach. -/
def isPinned : List Tree → Bool
  | [] => false
  | first :: before =>
      first.isPunct "::" ||
        match before with
        | [] => false
        | second :: before =>
            first.isGroup .paren && second.isPunct "::" ||
              first.isGroup .brace && second.isGroup .paren && before.head?.any (·.isPunct "::")

/-- How far an operand can reach if every marker in front is left untouched. -/
def reach (site : Site) : Nat :=
  if isPinned site.before then 0 else site.before.length

/-- Why a marker cannot be resolved if every marker in front is left untouched. -/
def failure? (site : Site) : Option Failure :=
  match site.resolve site.reach with
  | .ok _ => none
  | .error failure => some failure

end Site

namespace Operand

/-- Why the nearest tree in reach is the end of no operand. -/
def failure? (nearest marker : Tree) : Option Failure :=
  if isBoundary nearest then some ⟨.noOperand, marker.span, none⟩
  else if nearest.isPunctIn danglingOperators then
    some ⟨.danglingOperator (Head.describe nearest), nearest.span, none⟩
  else none

/-- Whether there is an operand is seen at the nearest tree. -/
theorem take_succ_cons (reach : Nat) (nearest : Tree) (before : List Tree) (marker : Tree) :
    ∃ operand, take (reach + 1) (nearest :: before) marker =
      (failure? nearest marker).elim (.ok operand) .error := by
  by_cases boundary : isBoundary nearest = true
  · exact ⟨[], by simp [take, length, failure?, boundary]⟩
  · obtain ⟨others, taken⟩ : ∃ others,
        (nearest :: before).take (length (reach + 1) (nearest :: before)) = nearest :: others := by
      unfold length
      simp only [boundary, Bool.false_eq_true, if_false]
      split
      · exact ⟨[], rfl⟩
      · exact ⟨_, rfl⟩
    refine ⟨nearest :: others, ?_⟩
    rw [take, taken, failure?, if_neg boundary]
    cases nearest with
    | group bracket children => rfl
    | leaf token =>
        simp only [Head.describe]
        split <;> rfl

theorem take_error_congr {reach other : Nat} {before : List Tree} {marker : Tree}
    {failure : Failure} (same : reach = 0 ↔ other = 0)
    (failed : take reach before marker = .error failure) :
    take other before marker = .error failure := by
  match reach, other with
  | 0, 0 => exact failed
  | 0, other + 1 => exact absurd (same.mp rfl) (by omega)
  | reach + 1, 0 => exact absurd (same.mpr rfl) (by omega)
  | reach + 1, other + 1 =>
      cases before with
      | nil => exact failed
      | cons nearest before =>
          obtain ⟨operand, found⟩ := take_succ_cons reach nearest before marker
          obtain ⟨_, foundOther⟩ := take_succ_cons other nearest before marker
          rw [found] at failed
          rw [foundOther]
          cases fault : failure? nearest marker with
          | none =>
              rw [fault] at failed
              contradiction
          | some reason =>
              rw [fault] at failed
              exact failed

end Operand

namespace Site

variable {site : Site} {reach other : Nat} {failure : Failure}

theorem divide_error_congr (same : reach = 0 ↔ other = 0)
    (failed : site.divide reach = .error failure) : site.divide other = .error failure := by
  unfold divide at failed ⊢
  split at failed
  · rename_i missing
    cases failed
    rw [Operand.take_error_congr same missing]
  · rename_i operand taken
    cases found : Operand.take other site.before site.marker with
    | error missing =>
        rw [Operand.take_error_congr same.symm found] at taken
        contradiction
    | ok operand =>
        simp only
        split at failed
        · exact failed
        · split at failed
          · exact failed
          · split at failed
            · exact failed
            · contradiction

theorem resolve_error_congr (same : reach = 0 ↔ other = 0)
    (failed : site.resolve reach = .error failure) : site.resolve other = .error failure := by
  unfold resolve at failed ⊢
  split at failed
  · contradiction
  · rename_i inner divided
    rw [divide_error_congr same divided]
    exact failed

theorem failure?_of_resolve (same : reach = 0 ↔ site.reach = 0) :
    (∀ failure, site.resolve reach = .error failure → site.failure? = some failure) ∧
      ∀ occurrence, site.resolve reach = .ok occurrence → site.failure? = none := by
  constructor
  · intro failure failed
    rw [failure?, resolve_error_congr same failed]
  · intro occurrence resolved
    unfold failure?
    split
    · rfl
    · rename_i failure failed
      rw [resolve_error_congr same.symm failed] at resolved
      contradiction

end Site

namespace Fronting

theorem continuesPath_separator {token : Token} (separator : token.isPunct "::" = true) :
    Marker.continuesPath (.leaf token) = false := by
  simp only [Token.isPunct, Bool.and_eq_true, beq_iff_eq] at separator
  simp [Marker.continuesPath, isAnyIdent, isPunctIn, anyToken, isGroup, separator.1, separator.2]

/-- What a pinned place stands behind is an occurrence, up to its end. -/
theorem exists_of_isPinned {before after : List Tree} {tree : Tree}
    (isMarker : Marker.test tree after.head? = true) (pinned : Site.isPinned before = true) :
    ∃ groups pin farther, before = groups ++ pin :: farther ∧
      Marker.test pin (groups.reverse.head?.or (some tree)) = true ∧
      (∀ group ∈ groups, group.isPunct "::" = false) ∧
      farther.length + 1 + groups.length ≤
        untouchedEnd farther.length (groups.reverse ++ tree :: after) := by
  obtain ⟨token, rfl, separator⟩ := Marker.eq_leaf_of_test isMarker
  have atMarker : Marker.continuesPath (.leaf token) = false := continuesPath_separator separator
  have atHead {head : Tree} (isHead : head.isGroup .paren = true) :
      Marker.continuesPath head = false := continuesPath_of_isGroup isHead
  unfold Site.isPinned at pinned
  split at pinned
  · contradiction
  · rename_i first before
    rw [Bool.or_eq_true] at pinned
    rcases pinned with isPin | pinned
    · exact ⟨[], first, before, rfl, by simp [Marker.test, isPin, atMarker], by simp,
        lt_untouchedEnd ..⟩
    · cases before with
      | nil => contradiction
      | cons second before =>
          simp only [Bool.or_eq_true, Bool.and_eq_true] at pinned
          rcases pinned with ⟨isHead, isPin⟩ | ⟨⟨isBlock, isHead⟩, isPin⟩
          · refine ⟨[first], second, before, rfl, ?_, ?_, ?_⟩
            · simp [Marker.test, isPin, atHead isHead]
            · simp [isPunct_of_isGroup isHead]
            · simp only [List.reverse_singleton, List.singleton_append, untouchedEnd, isHead,
                if_true, List.length_singleton]
              split <;> omega
          · cases before with
            | nil => contradiction
            | cons third before =>
                simp only [List.head?_cons, Option.any_some] at isPin
                refine ⟨[first, second], third, before, rfl, ?_, ?_, ?_⟩
                · simp [Marker.test, isPin, atHead isHead]
                · simp [isPunct_of_isGroup isHead, isPunct_of_isGroup isBlock]
                · simp [untouchedEnd, isHead, isBlock]

/-- Where a scan stands that has left every marker untouched: the floor is the end of the
nearest occurrence, or 0 if there is none. -/
def Guarded (floor : Nat) (before rest : List Tree) : Prop :=
  (floor = 0 ∧ Passable rest.head? before.reverse) ∨
    ∃ skipped marker earlier, before = skipped ++ marker :: earlier ∧
      marker.isPunct "::" = true ∧ Passable rest.head? skipped.reverse ∧
      floor = untouchedEnd earlier.length (skipped.reverse ++ rest)

namespace Guarded

variable {floor : Nat} {before after : List Tree} {tree : Tree}

theorem start (trees : List Tree) : Guarded 0 [] trees :=
  .inl ⟨rfl, trivial⟩

theorem skip (guarded : Guarded floor before (tree :: after))
    (noMarker : Marker.test tree after.head? = false) : Guarded floor (tree :: before) after := by
  rcases guarded with ⟨open', passable⟩ | ⟨skipped, marker, earlier, rfl, isMarker, passable, same⟩
  · refine .inl ⟨open', ?_⟩
    rw [List.reverse_cons, passable_append]
    exact ⟨passable, by simpa using noMarker, trivial⟩
  · refine .inr ⟨tree :: skipped, marker, earlier, rfl, isMarker, ?_, ?_⟩
    · rw [List.reverse_cons, passable_append]
      exact ⟨passable, by simpa using noMarker, trivial⟩
    · rw [same, List.reverse_cons, List.append_assoc, List.singleton_append]

theorem leave (isMarker : Marker.test tree after.head? = true) (before : List Tree) :
    Guarded (untouchedEnd before.length after) (tree :: before) after := by
  obtain ⟨token, rfl, separator⟩ := Marker.eq_leaf_of_test isMarker
  exact .inr ⟨[], .leaf token, before, rfl, separator, trivial, rfl⟩

/-- Behind an occurrence that is left untouched nothing is in reach. -/
theorem isPinned_of_le (guarded : Guarded floor before (tree :: after))
    (reached : before.length ≤ floor) (nonempty : before ≠ []) : Site.isPinned before = true := by
  rcases guarded with ⟨rfl, -⟩ | ⟨skipped, marker, earlier, rfl, separator, -, rfl⟩
  · exact absurd (List.length_eq_zero_iff.mp (Nat.le_zero.mp reached)) nonempty
  · rw [List.length_append, List.length_cons] at reached
    obtain ⟨groups, own, ends⟩ := exists_ownGroups earlier.length (skipped.reverse ++ tree :: after)
    have short : skipped.length ≤ groups.length := by omega
    cases skipped with
    | nil => simp [Site.isPinned, separator]
    | cons nearest farther =>
        generalize parts : (nearest :: farther).reverse ++ tree :: after = behind at own
        cases own with
        | none => simp at short
        | head isHead =>
            have none : farther = [] := List.length_eq_zero_iff.mp (by simpa using short)
            subst none
            cases parts
            simp [Site.isPinned, separator, isHead]
        | block isHead isBlock =>
            cases farther with
            | nil =>
                cases parts
                simp [Site.isPinned, separator, isHead]
            | cons first farther =>
                have none : farther = [] := List.length_eq_zero_iff.mp (by simpa using short)
                subst none
                cases parts
                simp [Site.isPinned, separator, isHead, isBlock]

/-- Where nothing is in reach by its looks, nothing is in reach. -/
theorem le_of_isPinned (guarded : Guarded floor before (tree :: after))
    (isMarker : Marker.test tree after.head? = true) (pinned : Site.isPinned before = true) :
    before.length ≤ floor := by
  obtain ⟨groups, pin, farther, rfl, isPin, noPins, ends⟩ := exists_of_isPinned isMarker pinned
  have notPassed {others : List Tree} :
      ¬ Passable (some tree) (others ++ pin :: groups.reverse) := by
    rw [passable_append, Passable]
    rintro ⟨-, passed, -⟩
    rw [isPin] at passed
    contradiction
  rcases guarded with ⟨-, passable⟩ | ⟨skipped, marker, earlier, parts, separator, passable, rfl⟩
  · rw [List.reverse_append, List.reverse_cons, List.append_assoc] at passable
    exact absurd passable notPassed
  · rcases List.append_eq_append_iff.mp parts with ⟨between, same, others⟩ | ⟨between, same, others⟩
    · cases between with
      | nil =>
          cases others
          rw [List.append_nil] at same
          subst same
          rw [List.length_append, List.length_cons]
          omega
      | cons first between =>
          cases others
          rw [same, List.reverse_append, List.reverse_cons, List.append_assoc] at passable
          exact absurd passable notPassed
    · cases between with
      | nil =>
          cases others
          rw [List.append_nil] at same
          subst same
          rw [List.length_append, List.length_cons]
          omega
      | cons first between =>
          cases others
          have harmless := noPins marker (by simp [same])
          rw [separator] at harmless
          contradiction

theorem reach_eq_zero (guarded : Guarded floor before (tree :: after))
    (isMarker : Marker.test tree after.head? = true) :
    before.length - floor = 0 ↔ Site.reach ⟨before, tree, after⟩ = 0 := by
  rw [Nat.sub_eq_zero_iff_le, Site.reach]
  simp only
  split
  · rename_i pinned
    exact ⟨fun _ => rfl, fun _ => guarded.le_of_isPinned isMarker pinned⟩
  · rename_i free
    rw [List.length_eq_zero_iff]
    constructor
    · intro reached
      exact Classical.byContradiction fun nonempty =>
        free (guarded.isPinned_of_le reached nonempty)
    · rintro rfl
      exact Nat.zero_le _

end Guarded

end Fronting

end Headfirst
