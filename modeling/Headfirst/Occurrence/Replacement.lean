import Headfirst.Occurrence.Head

namespace Headfirst

/-! The construct that replaces an occurrence:

    <label> <keywords> <argument> <pattern> <link>  <operand>  <body> <else ...>

as one invisible group, so that later markers see a single tree. -/

namespace Replacement

/-- A compound operand, or an earlier replacement, would lose its precedence. -/
def needsParens : List Tree → Bool
  | [tree] => tree.isInvisible
  | trees => 1 < trees.length

def bareOperand : List Tree → List Tree
  | [] => []
  | tree :: trees => tree.withLeading "" :: trees

def wrapped (parenthesize : Bool) (operand : List Tree) : Tree :=
  let trees := bareOperand operand
  let loc := firstLoc trees
  if parenthesize && needsParens trees then
    let endLoc := trees.getLast?.elim .unknown Tree.loc
    .group { delimiter := .paren, loc, endLoc } trees
  else
    match trees with
    | [tree] => tree
    | trees => .group { delimiter := .invisible, loc } trees

/-- A first tree without trivia, and others that are separated from what precedes them. -/
def spaced : List Tree → List Tree
  | [] => []
  | tree :: trees => tree.withLeading "" :: trees.map Tree.separated

/-- Head, operand and body as one invisible group, with the trivia of the operand. -/
def make (parenthesize : Bool) (operand : List Tree) (head : Head) (body : List Tree) : Tree :=
  .group
    { delimiter := .invisible
      loc := firstLoc operand
      leading := operand.head?.elim "" Tree.leading }
    (spaced (head.trees ++ wrapped parenthesize operand :: body))

end Replacement

end Headfirst
