import Headfirst.Proofs.MarkerCount
import Headfirst.Settings

namespace Headfirst.Tree

/-! Dissolving the invisible groups of a fragment: the tokens stay, no path turns into a
marker, and nothing is left to dissolve. -/

variable {tree : Tree} {trees : List Tree}

theorem bareTokens_prepend (leading : String) (trees : List Tree) :
    bareTokens (prepend leading trees) = bareTokens trees :=
  bareTokens_eq_of_bare (bare_prepend leading trees)

mutual

theorem bareTokens_flatten : ∀ tree : Tree, bareTokens tree.flatten = tree.tokens.map Token.bare
  | leaf token => by simp [flatten]
  | group bracket children => by
      have inside := bareTokens_flattenAll children
      rw [flatten]
      split
      · rw [bareTokens_prepend, inside, tokens]
        rfl
      · rw [bareTokens_cons, bareTokens_nil, List.append_nil, tokens, tokens]
        exact inside

theorem bareTokens_flattenAll : ∀ trees : List Tree, bareTokens (flattenAll trees) = bareTokens trees
  | [] => rfl
  | tree :: trees => by
      rw [flattenAll, bareTokens_append, bareTokens_cons, bareTokens_flatten tree,
        bareTokens_flattenAll trees]

end

theorem wordsAll_prepend (leading : String) (trees : List Tree) :
    wordsAll (prepend leading trees) = wordsAll trees :=
  wordsAll_eq_of_bare (bare_prepend leading trees)

mutual

theorem wordsAll_flatten : ∀ tree : Tree, wordsAll tree.flatten = tree.words
  | leaf token => by simp [flatten, wordsAll]
  | group bracket children => by
      have inside := wordsAll_flattenAll children
      rw [flatten, words]
      split
      · rw [wordsAll_prepend, inside]
      · rename_i visible
        rw [wordsAll, wordsAll, List.append_nil, words, if_neg visible, inside]

theorem wordsAll_flattenAll : ∀ trees : List Tree, wordsAll (flattenAll trees) = wordsAll trees
  | [] => rfl
  | tree :: trees => by
      rw [flattenAll, wordsAll_append, wordsAll_flatten tree, wordsAll_flattenAll trees, wordsAll]

end

/-! Markers. -/

theorem endsHarmlessly_of_markersAll (unmarked : markersAll trees = 0) : EndsHarmlessly trees := by
  induction trees with
  | nil => exact endsHarmlessly_nil
  | cons tree trees ih =>
      rw [markersAll_cons] at unmarked
      cases trees with
      | nil =>
          refine endsHarmlessly_concat [] ?_
          simp only [Marker.test, List.head?_nil, Option.any_none, Bool.not_false,
            Bool.and_true] at unmarked
          cases separator : tree.isPunct "::" with
          | false => rfl
          | true =>
              simp only [separator, Bool.toNat_true] at unmarked
              omega
      | cons second rest =>
          intro last found
          exact ih (by omega) last (by simpa [List.getLast?_cons_cons] using found)

theorem markersBefore_of_markersAll (unmarked : markersAll trees = 0) (next : Option Tree) :
    markersBefore next trees = 0 := by
  rw [(endsHarmlessly_of_markersAll unmarked).markersBefore_eq_markersAll, unmarked]

theorem markersAll_prepend (leading : String) (trees : List Tree) :
    markersAll (prepend leading trees) = markersAll trees := by
  rw [← markersBefore_none, ← markersBefore_none, markersBefore_eq_of_bare (bare_prepend _ _)]

/-- What goes on with a path outlives the invisible groups around it. -/
theorem head?_flattenAll_continuesPath
    (continues : trees.head?.any Marker.continuesPath = true) :
    (flattenAll trees).head?.any Marker.continuesPath = true := by
  cases trees with
  | nil => contradiction
  | cons tree trees =>
      cases tree with
      | leaf token => exact continues
      | group bracket children =>
          have brace : bracket.delimiter = .brace := by
            simpa [Marker.continuesPath, isAnyIdent, isPunctIn, anyToken, isGroup] using continues
          simp [flattenAll, flatten, brace, Marker.continuesPath, isGroup]

mutual

theorem markersBefore_flatten : ∀ (tree : Tree), tree.markers = 0 → ∀ trees : List Tree,
    Marker.test tree trees.head? = false →
      markersBefore (flattenAll trees).head? tree.flatten = 0
  | leaf token, _, trees, noMarker => by
      have unchanged : Marker.test (leaf token) (flattenAll trees).head? = false := by
        cases separator : (leaf token).isPunct "::" with
        | false => exact Marker.test_eq_false separator
        | true =>
            simp only [Marker.test, separator, Bool.true_and, Bool.not_eq_false'] at noMarker ⊢
            exact head?_flattenAll_continuesPath noMarker
      simp [flatten, markersBefore, unchanged, markers]
  | group bracket children, unmarked, trees, _ => by
      have inside : markersAll (flattenAll children) = 0 := markersAll_flattenAll children unmarked
      rw [flatten]
      split
      · exact markersBefore_of_markersAll (by rw [markersAll_prepend, inside]) _
      · simp [markersBefore, Marker.test_group, markers, inside]

/-- Where there is no marker, dissolving invisible groups makes none. -/
theorem markersAll_flattenAll : ∀ trees : List Tree, markersAll trees = 0 →
    markersAll (flattenAll trees) = 0
  | [], _ => rfl
  | tree :: trees, unmarked => by
      rw [markersAll_cons] at unmarked
      have here : Marker.test tree trees.head? = false := by
        cases test : Marker.test tree trees.head? with
        | false => rfl
        | true =>
            simp only [test, Bool.toNat_true] at unmarked
            omega
      rw [flattenAll, markersAll_append, markersBefore_flatten tree (by omega) trees here,
        markersAll_flattenAll trees (by omega)]

end

/-! Nothing is left to dissolve. -/

mutual

/-- Whether no invisible group is left in a tree, nor the tree is one. -/
def isVisible : Tree → Bool
  | leaf _ => true
  | group bracket children => bracket.delimiter != .invisible && areVisible children

def areVisible : List Tree → Bool
  | [] => true
  | tree :: trees => tree.isVisible && areVisible trees

end

theorem areVisible_append (left right : List Tree) :
    areVisible (left ++ right) = (areVisible left && areVisible right) := by
  induction left with
  | nil => rfl
  | cons tree trees ih => simp [areVisible, ih, Bool.and_assoc]

theorem areVisible_prepend (leading : String) (trees : List Tree) :
    areVisible (prepend leading trees) = areVisible trees := by
  cases trees with
  | nil => rfl
  | cons tree trees => cases tree <;> rfl

mutual

theorem areVisible_flatten : ∀ tree : Tree, areVisible tree.flatten = true
  | leaf token => rfl
  | group bracket children => by
      have inside := areVisible_flattenAll children
      rw [flatten]
      split
      · rw [areVisible_prepend, inside]
      · rename_i visible
        simp [areVisible, isVisible, inside, visible]

theorem areVisible_flattenAll : ∀ trees : List Tree, areVisible (flattenAll trees) = true
  | [] => rfl
  | tree :: trees => by
      rw [flattenAll, areVisible_append, areVisible_flatten tree, areVisible_flattenAll trees]
      rfl

end

mutual

theorem flatten_of_isVisible : ∀ tree : Tree, tree.isVisible = true → tree.flatten = [tree]
  | leaf token, _ => rfl
  | group bracket children, visible => by
      simp only [isVisible, Bool.and_eq_true, bne_iff_ne, ne_eq] at visible
      rw [flatten, if_neg visible.1, flattenAll_of_areVisible children visible.2]

theorem flattenAll_of_areVisible : ∀ trees : List Tree, areVisible trees = true →
    flattenAll trees = trees
  | [], _ => rfl
  | tree :: trees, visible => by
      simp only [areVisible, Bool.and_eq_true] at visible
      rw [flattenAll, flatten_of_isVisible tree visible.1,
        flattenAll_of_areVisible trees visible.2, List.singleton_append]

end

theorem flattenAll_flattenAll (trees : List Tree) :
    flattenAll (flattenAll trees) = flattenAll trees :=
  flattenAll_of_areVisible _ (areVisible_flattenAll trees)

end Headfirst.Tree

namespace Headfirst.Tree

/-! How deep the trees are. -/

variable {tree : Tree} {left right : List Tree}

theorem depthAll_append (left right : List Tree) :
    depthAll (left ++ right) = max (depthAll left) (depthAll right) := by
  induction left with
  | nil => simp [depthAll]
  | cons tree trees ih => simp [depthAll, ih, Nat.max_assoc]

theorem depthAll_eq_of_bare (same : left.map bare = right.map bare) :
    depthAll left = depthAll right := by
  have bare (trees : List Tree) : depthAll (trees.map bare) = depthAll trees := by
    induction trees with
    | nil => rfl
    | cons tree trees ih =>
        have here : tree.bare.depth = tree.depth := by cases tree <;> rfl
        simp [depthAll, ih, here]
  rw [← bare left, same, bare]

theorem bare_flattenAll (trees : List Tree) :
    (flattenAll (trees.map bare)).map bare = (flattenAll trees).map bare := by
  induction trees with
  | nil => rfl
  | cons tree trees ih =>
      have here : tree.bare.flatten.map bare = tree.flatten.map bare := by
        cases tree with
        | leaf token => rfl
        | group bracket children =>
            simp only [Tree.bare, withLeading, flatten]
            split
            · rw [bare_prepend, bare_prepend]
            · rfl
      rw [List.map_cons, flattenAll, List.map_append, here, ih, flattenAll, List.map_append]

theorem depthAll_flattenAll_eq_of_bare (same : left.map bare = right.map bare) :
    depthAll (flattenAll left) = depthAll (flattenAll right) := by
  refine depthAll_eq_of_bare ?_
  rw [← bare_flattenAll left, same, bare_flattenAll]

end Headfirst.Tree

namespace Headfirst.Fragment

open Headfirst.Tree

variable (settings : Settings) {trees : List Tree}

/-- The children of a result: without the groups that hold replacements together, unless
they are to be kept. -/
def settle (trees : List Tree) : List Tree :=
  if settings.keepGroups then trees else flattenAll trees

theorem settle_cases (trees : List Tree) :
    settle settings trees = trees ∨ settle settings trees = flattenAll trees := by
  unfold settle
  split
  · exact .inl rfl
  · exact .inr rfl

theorem bareTokens_settle (trees : List Tree) :
    bareTokens (settle settings trees) = bareTokens trees := by
  rcases settle_cases settings trees with kept | dissolved
  · rw [kept]
  · rw [dissolved, bareTokens_flattenAll]

theorem wordsAll_settle (trees : List Tree) :
    wordsAll (settle settings trees) = wordsAll trees := by
  rcases settle_cases settings trees with kept | dissolved
  · rw [kept]
  · rw [dissolved, wordsAll_flattenAll]

theorem markersAll_settle (unmarked : markersAll trees = 0) :
    markersAll (settle settings trees) = 0 := by
  rcases settle_cases settings trees with kept | dissolved
  · rw [kept, unmarked]
  · rw [dissolved, markersAll_flattenAll trees unmarked]

theorem flattenAll_settle (trees : List Tree) :
    flattenAll (settle settings trees) = flattenAll trees := by
  rcases settle_cases settings trees with kept | dissolved
  · rw [kept]
  · rw [dissolved, flattenAll_flattenAll]

theorem settle_flattenAll (trees : List Tree) :
    settle settings (flattenAll trees) = flattenAll trees := by
  rcases settle_cases settings (flattenAll trees) with kept | dissolved
  · exact kept
  · rw [dissolved, flattenAll_flattenAll]

end Headfirst.Fragment
