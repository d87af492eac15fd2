import Headfirst.Occurrence.Marker
import Headfirst.Occurrence.Replacement
import Headfirst.Tree.Flatten
import Headfirst.Tree.Print

namespace Headfirst

/-! Trees up to the trivia in front of them.

A splice changes the trivia of the trees it moves and of nothing below them.  What a tree
is to a marker, its tokens and its words do not depend on that trivia, so all of these can
be read off the bare trees. -/

namespace Token

def bare (token : Token) : Token :=
  { token with leading := "" }

end Token

namespace Tree

def bare (tree : Tree) : Tree :=
  tree.withLeading ""

variable {tree : Tree} {trees left right : List Tree} {leading : String}

@[simp] theorem bare_withLeading : (tree.withLeading leading).bare = tree.bare := by
  cases tree <;> rfl

@[simp] theorem bare_separated : tree.separated.bare = tree.bare := by
  unfold separated
  split <;> simp

theorem bare_prepend (leading : String) (trees : List Tree) :
    (prepend leading trees).map bare = trees.map bare := by
  cases trees <;> simp [prepend]

theorem bare_bareOperand (trees : List Tree) :
    (Replacement.bareOperand trees).map bare = trees.map bare := by
  cases trees <;> simp [Replacement.bareOperand]

theorem bare_spaced (trees : List Tree) :
    (Replacement.spaced trees).map bare = trees.map bare := by
  cases trees <;> simp [Replacement.spaced]

/-! Tests on single trees. -/

@[simp] theorem isPunct_bare (text : String) : tree.bare.isPunct text = tree.isPunct text := by
  cases tree <;> rfl

theorem eq_group_of_isGroup {delimiter : Delimiter} (isGroup : tree.isGroup delimiter = true) :
    ∃ bracket children, tree = .group bracket children ∧ bracket.delimiter = delimiter := by
  cases tree with
  | leaf token => contradiction
  | group bracket children =>
      exact ⟨bracket, children, rfl, by simpa [Tree.isGroup] using isGroup⟩

theorem isGroup_eq_false {delimiter other : Delimiter}
    (isGroup : tree.isGroup delimiter = true) (different : delimiter ≠ other) :
    tree.isGroup other = false := by
  obtain ⟨bracket, children, rfl, rfl⟩ := eq_group_of_isGroup isGroup
  simpa [Tree.isGroup] using different

theorem isPunct_of_isGroup {delimiter : Delimiter} (isGroup : tree.isGroup delimiter = true)
    (text : String) : tree.isPunct text = false := by
  obtain ⟨bracket, children, rfl, -⟩ := eq_group_of_isGroup isGroup
  rfl

/-- Of the groups, only a block in braces goes on with a path. -/
theorem continuesPath_of_isGroup {delimiter : Delimiter}
    (isGroup : tree.isGroup delimiter = true) :
    Marker.continuesPath tree = (delimiter == .brace) := by
  obtain ⟨bracket, children, rfl, rfl⟩ := eq_group_of_isGroup isGroup
  rfl

@[simp] theorem isGroup_bare (delimiter : Delimiter) :
    tree.bare.isGroup delimiter = tree.isGroup delimiter := by
  cases tree <;> rfl

@[simp] theorem continuesPath_bare :
    Marker.continuesPath tree.bare = Marker.continuesPath tree := by
  cases tree <;> rfl

@[simp] theorem markers_bare : tree.bare.markers = tree.markers := by
  cases tree <;> rfl

@[simp] theorem words_bare : tree.bare.words = tree.words := by
  cases tree <;> rfl

theorem bare_tokens_bare : tree.bare.tokens.map Token.bare = tree.tokens.map Token.bare := by
  cases tree <;> rfl

/-! Sequences. -/

/-- What holds of trees whatever trivia is in front of them. -/
theorem forall_of_bare {holds : Tree → Prop} (blind : ∀ tree : Tree, holds tree.bare ↔ holds tree)
    (same : left.map bare = right.map bare) (all : ∀ tree ∈ right, holds tree) :
    ∀ tree ∈ left, holds tree := by
  intro tree member
  have found : tree.bare ∈ right.map bare := same ▸ List.mem_map_of_mem member
  obtain ⟨other, among, equal⟩ := List.mem_map.mp found
  rw [← blind, ← equal, blind]
  exact all other among

/-- The tokens of a sequence without their trivia: kind, text and place. -/
def bareTokens (trees : List Tree) : List Token :=
  (tokensAll trees).map Token.bare

@[simp] theorem bareTokens_nil : bareTokens [] = [] := rfl

@[simp] theorem bareTokens_cons :
    bareTokens (tree :: trees) = tree.tokens.map Token.bare ++ bareTokens trees := by
  simp [bareTokens, tokensAll]

@[simp] theorem bareTokens_append :
    bareTokens (left ++ right) = bareTokens left ++ bareTokens right := by
  simp [bareTokens]

theorem bareTokens_bare (trees : List Tree) : bareTokens (trees.map bare) = bareTokens trees := by
  induction trees with
  | nil => rfl
  | cons tree trees ih => simp [bare_tokens_bare, ih]

theorem bareTokens_eq_of_bare (same : left.map bare = right.map bare) :
    bareTokens left = bareTokens right := by
  rw [← bareTokens_bare left, same, bareTokens_bare]

@[simp] theorem wordsAll_append : wordsAll (left ++ right) = wordsAll left ++ wordsAll right := by
  induction left with
  | nil => rfl
  | cons tree trees ih => simp [wordsAll, ih]

theorem wordsAll_bare (trees : List Tree) : wordsAll (trees.map bare) = wordsAll trees := by
  induction trees with
  | nil => rfl
  | cons tree trees ih => simp [wordsAll, ih]

theorem wordsAll_eq_of_bare (same : left.map bare = right.map bare) :
    wordsAll left = wordsAll right := by
  rw [← wordsAll_bare left, same, wordsAll_bare]

end Tree

end Headfirst
