import Headfirst.Tree.Flatten

namespace Headfirst.Tree

/-! Changes at a node.  A path is the list of child indices that lead to it. -/

def at? : (path : List Nat) → Tree → Option Tree
  | [], tree => some tree
  | index :: path, tree => tree.children[index]?.bind (at? path)

def modify (change : Tree → Tree) : (path : List Nat) → Tree → Tree
  | [], tree => change tree
  | _, leaf token => leaf token
  | index :: path, group bracket children =>
      group bracket (children.modify index (modify change path))

def mapChildren (change : List Tree → List Tree) : Tree → Tree
  | leaf token => leaf token
  | group bracket children => group bracket (change children)

/-- Puts other trees in place of those from `start` up to, not including, `stop`. -/
def splice (start stop : Nat) (trees : List Tree) (siblings : List Tree) : List Tree :=
  siblings.take start ++ trees ++ siblings.drop (max start stop)

/-- Makes one group, without place or trivia, of a stretch of siblings. -/
def enclose (start stop : Nat) (delimiter : Delimiter) (siblings : List Tree) : List Tree :=
  splice start stop [group { delimiter } ((siblings.take stop).drop start)] siblings

def wrap (delimiter : Delimiter) : (times : Nat) → Tree → Tree
  | 0, tree => tree
  | times + 1, tree => group { delimiter } [wrap delimiter times tree]

end Headfirst.Tree
