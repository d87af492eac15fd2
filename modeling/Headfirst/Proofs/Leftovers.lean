import Headfirst.Proofs.Expanding
import Headfirst.Proofs.Order
import Headfirst.Proofs.TokenConservation

namespace Headfirst

open Headfirst.Tree

/-! What an expansion leaves to be expanded.

An expansion reads its program once, and it does not read what it has put in the places of the
invocations.  The name and the `!` of every invocation are gone afterward, so an invocation in the
result is one that the program did not have: it is formed within an expansion, or where the groups
are dissolved of an expansion and its neighbours. -/

variable {settings : Settings} {macroName : String}

namespace Invocation

variable {invocation : Invocation} {trees : List Tree}

/-- The tokens by which a macro is invoked. -/
def call (invocation : Invocation) : List Token :=
  [invocation.name.bare, invocation.bang.bare]

end Invocation

namespace Part

end Part

namespace Tree

mutual

theorem tokens_sublist_locs : ∀ tree : Tree, (tree.tokens.map Token.loc).Sublist tree.locs
  | leaf _ => .refl _
  | group _ children => (tokensAll_sublist_locs children).cons _

theorem tokensAll_sublist_locs : ∀ trees : List Tree,
    ((tokensAll trees).map Token.loc).Sublist (locsAll trees)
  | [] => .refl _
  | tree :: trees => by
      rw [tokensAll, List.map_append, locsAll]
      exact (tokens_sublist_locs tree).append (tokensAll_sublist_locs trees)

end

end Tree

namespace Fragment

variable {fragment result : Fragment}

end Fragment

end Headfirst
