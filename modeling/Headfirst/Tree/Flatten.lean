import Headfirst.Tree.View

namespace Headfirst.Tree

/-! Dissolving invisible groups. -/

/-- Puts trivia in front of a sequence.  An empty sequence has no place for it. -/
def prepend (leading : String) : List Tree → List Tree
  | [] => []
  | tree :: trees => tree.withLeading (leading ++ tree.leading) :: trees

mutual

/-- What a tree becomes among its siblings once no invisible group is left in it.
A dissolved group hands its trivia to the first tree that remains of it. -/
def flatten : Tree → List Tree
  | leaf token => [leaf token]
  | group bracket children =>
      if bracket.delimiter = .invisible then prepend bracket.leading (flattenAll children)
      else [group bracket (flattenAll children)]

def flattenAll : List Tree → List Tree
  | [] => []
  | tree :: trees => tree.flatten ++ flattenAll trees

end

theorem flattenAll_append (left right : List Tree) :
    flattenAll (left ++ right) = flattenAll left ++ flattenAll right := by
  induction left with
  | nil => rfl
  | cons tree trees ih => simp [flattenAll, ih]

end Headfirst.Tree
