import Headfirst.Tree.View

namespace Headfirst

/-! The postfix marker: a `::` that does not continue a path.

A path goes on with an identifier, with generic arguments or a glob, or with the braces
of an import list.  Every other `::` marks a construct whose operand stands in front. -/

namespace Marker

def continuesPath (tree : Tree) : Bool :=
  tree.isAnyIdent || tree.isPunctIn ["<", "*"] || tree.isGroup .brace

def test (tree : Tree) (next : Option Tree) : Bool :=
  tree.isPunct "::" && !next.any continuesPath

def isAt (trees : List Tree) (index : Nat) : Bool :=
  match trees.drop index with
  | [] => false
  | tree :: after => test tree after.head?

def find? (trees : List Tree) (start : Nat) : Option Nat :=
  (List.range' start (trees.length - start)).find? (isAt trees)

def indices (trees : List Tree) (start : Nat) : List Nat :=
  (List.range' start (trees.length - start)).filter (isAt trees)

end Marker

namespace Tree

mutual

/-- The number of markers below a tree, at any depth. -/
def markers : Tree → Nat
  | leaf _ => 0
  | group _ children => markersAll children

def markersAll : List Tree → Nat
  | [] => 0
  | tree :: trees =>
      (if Marker.test tree trees.head? then 1 else 0) + tree.markers + markersAll trees

end

end Tree

end Headfirst
