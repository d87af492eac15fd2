import Headfirst.Fronting.Siblings

namespace Headfirst.Fronting

open Headfirst.Tree

/-! One pass over a tree: a sequence first, then the groups that are in it afterward, from
left to right. -/

mutual

def sequence (settings : Settings) (trees : List Tree) (progress : Progress) :
    Outcome (List Tree) :=
  match _done : siblings settings 0 [] trees progress with
  | .stopped failure progress => .stopped failure progress
  | .done trees progress => below settings trees progress
termination_by 2 * sizeAll trees + 1
decreasing_by
  have bound := sizeAll_siblings_start _done
  omega

/-- The pass over the groups of a sequence whose own markers are dealt with. -/
def below (settings : Settings) : (trees : List Tree) → Progress → Outcome (List Tree)
  | [], progress => .done [] progress
  | .leaf token :: trees, progress =>
      match below settings trees progress with
      | .stopped failure progress => .stopped failure progress
      | .done trees progress => .done (.leaf token :: trees) progress
  | .group bracket children :: trees, progress =>
      match sequence settings children progress with
      | .stopped failure progress => .stopped failure progress
      | .done children progress =>
          match below settings trees progress with
          | .stopped failure progress => .stopped failure progress
          | .done trees progress => .done (.group bracket children :: trees) progress
termination_by trees => 2 * sizeAll trees
decreasing_by
  all_goals
    simp only [sizeAll, size]
    omega

end

end Headfirst.Fronting
