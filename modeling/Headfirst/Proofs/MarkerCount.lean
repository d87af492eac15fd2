import Headfirst.Proofs.Bare

namespace Headfirst

/-! Counting markers piece by piece.

Whether a `::` is a marker depends on the tree after it, so the markers of a piece of a
sequence are counted against the tree that follows the piece.  A piece that does not end
in a `::` has the same markers whatever follows it. -/

namespace Marker

variable {tree next other : Tree} {following : Option Tree}

@[simp] theorem test_bare :
    test tree.bare (following.map Tree.bare) = test tree following := by
  cases following <;> simp [test]

theorem test_group (bracket : Bracket) (children : List Tree) (following : Option Tree) :
    test (.group bracket children) following = false := rfl

theorem test_eq_false (harmless : tree.isPunct "::" = false) : test tree following = false := by
  simp [test, harmless]

/-- In front of an invisible group every `::` is a marker. -/
theorem test_of_isInvisible (invisible : next.isInvisible = true) :
    test tree (some next) = tree.isPunct "::" := by
  have ends := Tree.continuesPath_of_isGroup invisible
  simp [test, ends]

/-- A marker is a `::`. -/
theorem eq_leaf_of_test (isMarker : test tree following = true) :
    ∃ token, tree = .leaf token ∧ token.isPunct "::" = true := by
  cases tree with
  | leaf token => exact ⟨token, rfl, (Bool.and_eq_true _ _ ▸ isMarker).1⟩
  | group bracket children => contradiction

end Marker

namespace Tree

variable {tree : Tree} {trees left right : List Tree} {next other : Option Tree}

/-- The markers of a sequence in front of `next`, and below the sequence. -/
def markersBefore (next : Option Tree) : List Tree → Nat
  | [] => 0
  | tree :: trees =>
      (Marker.test tree (trees.head?.or next)).toNat + tree.markers + markersBefore next trees

@[simp] theorem markersBefore_nil : markersBefore next [] = 0 := rfl

theorem markersBefore_cons_cons (second : Tree) :
    markersBefore next (tree :: second :: trees) =
      (Marker.test tree (some second)).toNat + tree.markers +
        markersBefore next (second :: trees) := rfl

theorem markersAll_cons (tree : Tree) (trees : List Tree) :
    markersAll (tree :: trees) =
      (Marker.test tree trees.head?).toNat + tree.markers + markersAll trees := by
  rw [markersAll]
  cases Marker.test tree trees.head? <;> rfl

theorem markersBefore_none (trees : List Tree) : markersBefore none trees = markersAll trees := by
  induction trees with
  | nil => rfl
  | cons tree trees ih => rw [markersBefore, markersAll_cons, ih, Option.or_none]

theorem markersBefore_append :
    markersBefore next (left ++ right) =
      markersBefore (right.head?.or next) left + markersBefore next right := by
  induction left with
  | nil => simp
  | cons tree trees ih =>
      simp only [List.cons_append, markersBefore, ih, List.head?_append, Option.or_assoc]
      omega

theorem markersAll_append :
    markersAll (left ++ right) = markersBefore right.head? left + markersAll right := by
  rw [← markersBefore_none, markersBefore_append, markersBefore_none, Option.or_none]

theorem markersBefore_concat_congr (left : List Tree)
    (same : Marker.test tree next = Marker.test tree other) :
    markersBefore next (left ++ [tree]) = markersBefore other (left ++ [tree]) := by
  have last : markersBefore next [tree] = markersBefore other [tree] := by
    simp only [markersBefore, List.head?_nil, Option.none_or, same]
  rw [markersBefore_append, markersBefore_append, last]
  rfl

theorem markersBefore_bare (trees : List Tree) :
    markersBefore (next.map bare) (trees.map bare) = markersBefore next trees := by
  induction trees with
  | nil => rfl
  | cons tree trees ih =>
      have following : (trees.map bare).head?.or (next.map bare) =
          (trees.head?.or next).map bare := by
        cases trees <;> simp
      simp only [List.map_cons, markersBefore, following, Marker.test_bare, markers_bare, ih]

theorem markersBefore_eq_of_bare (same : left.map bare = right.map bare) :
    markersBefore next left = markersBefore next right := by
  rw [← markersBefore_bare left, same, markersBefore_bare]

def EndsHarmlessly (trees : List Tree) : Prop :=
  ∀ last, trees.getLast? = some last → last.isPunct "::" = false

theorem endsHarmlessly_nil : EndsHarmlessly [] := by
  intro last found
  contradiction

theorem EndsHarmlessly.tail (harmless : EndsHarmlessly (tree :: trees)) :
    EndsHarmlessly trees := by
  intro last found
  apply harmless
  cases trees with
  | nil => contradiction
  | cons second rest => simpa [List.getLast?_cons_cons] using found

/-- What follows a sequence is seen by its last tree only. -/
theorem EndsHarmlessly.markersBefore_eq (harmless : EndsHarmlessly trees)
    (next other : Option Tree) : markersBefore next trees = markersBefore other trees := by
  induction trees with
  | nil => rfl
  | cons tree trees ih =>
      have rest := ih harmless.tail
      cases trees with
      | nil =>
          have last : tree.isPunct "::" = false := harmless tree rfl
          simp [markersBefore, Marker.test_eq_false last]
      | cons second others => rw [markersBefore_cons_cons, markersBefore_cons_cons, rest]

theorem EndsHarmlessly.markersBefore_eq_markersAll (harmless : EndsHarmlessly trees)
    (next : Option Tree) : markersBefore next trees = markersAll trees := by
  rw [harmless.markersBefore_eq next none, markersBefore_none]

theorem endsHarmlessly_of_bare (same : left.map bare = right.map bare)
    (harmless : EndsHarmlessly left) : EndsHarmlessly right := by
  intro last found
  have lasts : left.getLast?.map bare = right.getLast?.map bare := by
    rw [← List.getLast?_map, same, List.getLast?_map]
  rw [found, Option.map_some, Option.map_eq_some_iff] at lasts
  obtain ⟨other, foundLeft, equal⟩ := lasts
  rw [← isPunct_bare, ← equal, isPunct_bare]
  exact harmless other foundLeft

theorem endsHarmlessly_concat (trees : List Tree) (harmless : tree.isPunct "::" = false) :
    EndsHarmlessly (trees ++ [tree]) := by
  intro last found
  simp only [List.getLast?_concat, Option.some.injEq] at found
  rwa [← found]

/-- What the last tree of a sequence is, if there is one. -/
def EndsIn (kind : Tree → Bool) (trees : List Tree) : Prop :=
  ∀ last, trees.getLast? = some last → kind last = true

namespace EndsIn

variable {kind : Tree → Bool}

theorem nil : EndsIn kind [] := by
  intro last found
  contradiction

theorem concat (trees : List Tree) (holds : kind tree = true) : EndsIn kind (trees ++ [tree]) := by
  intro last found
  simp only [List.getLast?_concat, Option.some.injEq] at found
  rwa [← found]

theorem append (left : List Tree) (ends : EndsIn kind right) (nonempty : right ≠ []) :
    EndsIn kind (left ++ right) := by
  intro last found
  rw [List.getLast?_append, List.getLast?_eq_some_getLast nonempty, Option.some_or] at found
  apply ends
  rw [List.getLast?_eq_some_getLast nonempty, found]

theorem harmless (ends : EndsIn kind trees)
    (noPath : ∀ tree, kind tree = true → tree.isPunct "::" = false) : EndsHarmlessly trees :=
  fun last found => noPath last (ends last found)

end EndsIn

/-- A group is no marker: a sequence around it counts its two sides and its inside. -/
theorem markersAll_around (bracket : Bracket) (children : List Tree) :
    markersAll (left ++ .group bracket children :: right) =
      markersBefore (some (.group bracket [])) left + markersAll children +
        markersAll right := by
  have outside : markersBefore (some (.group bracket children)) left =
      markersBefore (some (.group bracket [])) left := by
    induction left with
    | nil => rfl
    | cons tree trees ih =>
        cases trees with
        | nil => cases tree <;> rfl
        | cons second rest => rw [markersBefore_cons_cons, markersBefore_cons_cons, ih]
  rw [markersAll_append, List.head?_cons, outside, markersAll_cons, Marker.test_group, markers]
  simp only [Bool.toNat_false]
  omega

/-! The markers of a sequence itself. -/

/-- No tree of a sequence in front of `next` is a marker. -/
def Passable (next : Option Tree) : List Tree → Prop
  | [] => True
  | tree :: trees => Marker.test tree (trees.head?.or next) = false ∧ Passable next trees

theorem passable_append :
    Passable next (left ++ right) ↔
      Passable (right.head?.or next) left ∧ Passable next right := by
  induction left with
  | nil => simp [Passable]
  | cons tree trees ih =>
      simp only [List.cons_append, Passable, List.head?_append, Option.or_assoc, ih, and_assoc]

theorem markersBefore_eq_zero :
    markersBefore next trees = 0 ↔ Passable next trees ∧ ∀ tree ∈ trees, tree.markers = 0 := by
  induction trees with
  | nil => simp [Passable]
  | cons tree trees ih =>
      have here : (Marker.test tree (trees.head?.or next)).toNat = 0 ↔
          Marker.test tree (trees.head?.or next) = false := by
        cases Marker.test tree (trees.head?.or next) <;> simp
      simp only [markersBefore, Nat.add_eq_zero_iff, ih, here, Passable, List.mem_cons,
        forall_eq_or_imp]
      constructor
      · rintro ⟨⟨own, inside⟩, others, below⟩
        exact ⟨⟨own, others⟩, inside, below⟩
      · rintro ⟨⟨own, others⟩, inside, below⟩
        exact ⟨⟨own, inside⟩, others, below⟩

def shell : Tree → Tree
  | leaf token => leaf token
  | group bracket _ => group bracket []

@[simp] theorem test_shell (tree : Tree) (following : Option Tree) :
    Marker.test tree.shell (following.map shell) = Marker.test tree following := by
  have same (other : Tree) : Marker.continuesPath other.shell = Marker.continuesPath other := by
    cases other <;> rfl
  have separator : tree.shell.isPunct "::" = tree.isPunct "::" := by cases tree <;> rfl
  cases following <;> simp [Marker.test, same, separator]

theorem passable_of_shell (same : left.map shell = right.map shell)
    (passable : Passable next left) : Passable next right := by
  have shells (trees : List Tree) :
      Passable (next.map shell) (trees.map shell) ↔ Passable next trees := by
    induction trees with
    | nil => simp [Passable]
    | cons tree trees ih =>
        have following : (trees.map shell).head?.or (next.map shell) =
            (trees.head?.or next).map shell := by
          cases trees <;> simp
        simp only [List.map_cons, Passable, following, test_shell, ih]
  rw [← shells, ← same, shells]
  exact passable

end Tree

end Headfirst
