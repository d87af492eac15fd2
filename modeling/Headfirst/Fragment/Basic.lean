import Headfirst.Tree.Basic

namespace Headfirst

/-- A piece of source as a whole: a sequence of trees within an outermost group, which
in a fragment that was read is invisible. -/
structure Fragment where
  bracket : Bracket
  children : List Tree
deriving Repr

def Fragment.tree (fragment : Fragment) : Tree :=
  .group fragment.bracket fragment.children

end Headfirst
