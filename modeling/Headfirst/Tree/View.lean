import Headfirst.Tree.Basic

namespace Headfirst

/-! Views of a tree: its tokens, its size, its depth. -/

namespace Tree

mutual

def tokens : Tree → List Token
  | leaf token => [token]
  | group _ children => tokensAll children

def tokensAll : List Tree → List Token
  | [] => []
  | tree :: trees => tree.tokens ++ tokensAll trees

end

mutual

def size : Tree → Nat
  | leaf _ => 1
  | group _ children => 1 + sizeAll children

def sizeAll : List Tree → Nat
  | [] => 0
  | tree :: trees => tree.size + sizeAll trees

end

mutual

/-- The number of groups around the innermost token, or the innermost empty group. -/
def depth : Tree → Nat
  | leaf _ => 0
  | group _ children => 1 + depthAll children

def depthAll : List Tree → Nat
  | [] => 0
  | tree :: trees => max tree.depth (depthAll trees)

end

@[simp] theorem tokensAll_append (left right : List Tree) :
    tokensAll (left ++ right) = tokensAll left ++ tokensAll right := by
  induction left with
  | nil => rfl
  | cons tree trees ih => simp [tokensAll, ih]

@[simp] theorem sizeAll_append (left right : List Tree) :
    sizeAll (left ++ right) = sizeAll left + sizeAll right := by
  induction left with
  | nil => simp [sizeAll]
  | cons tree trees ih => simp [sizeAll, ih, Nat.add_assoc]

@[simp] theorem sizeAll_reverse (trees : List Tree) : sizeAll trees.reverse = sizeAll trees := by
  induction trees with
  | nil => rfl
  | cons tree trees ih => simp [sizeAll, ih, Nat.add_comm]

@[simp] theorem size_withLeading (leading : String) (tree : Tree) :
    (tree.withLeading leading).size = tree.size := by
  cases tree <;> rfl

@[simp] theorem depth_withLeading (leading : String) (tree : Tree) :
    (tree.withLeading leading).depth = tree.depth := by
  cases tree <;> rfl

@[simp] theorem size_separated (tree : Tree) : tree.separated.size = tree.size := by
  unfold separated
  split <;> simp

@[simp] theorem tokensAll_nil : tokensAll [] = [] := rfl

theorem sizeAll_map_separated (trees : List Tree) :
    sizeAll (trees.map separated) = sizeAll trees := by
  induction trees with
  | nil => rfl
  | cons tree trees ih => simp [sizeAll, ih]

end Tree

end Headfirst
