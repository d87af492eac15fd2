import Headfirst.Text.Printable
import Headfirst.Tree.Basic

namespace Headfirst

/-! Trees as outlines, one line for each token and group. -/

/-- A token as one phrase: kind, quoted text, place. -/
def Token.summary (token : Token) : String :=
  s!"Token({token.kind.name}, {Text.quoted token.text}, {token.loc.lineColumn})"

namespace Tree

def summary : Tree → String
  | leaf token => token.summary
  | group bracket children =>
      s!"TokenGroup({bracket.delimiter.name}, {children.length} children)"

/-- One line of an outline, two spaces in for each level. -/
def outlineLine (indent : Nat) (locations : Bool) (head : String) (loc : Loc) : String :=
  "".pushn ' ' (2 * indent) ++ head ++ if locations then "  @" ++ loc.lineColumn else ""

mutual

def outlineLines (indent : Nat) (locations : Bool) : Tree → List String
  | leaf token =>
      [outlineLine indent locations (token.kind.name ++ " " ++ Text.quoted token.text) token.loc]
  | group bracket children =>
      outlineLine indent locations ("GROUP " ++ bracket.delimiter.name) bracket.loc ::
        outlineLinesAll (indent + 1) locations children

def outlineLinesAll (indent : Nat) (locations : Bool) : List Tree → List String
  | [] => []
  | tree :: trees =>
      tree.outlineLines indent locations ++ outlineLinesAll indent locations trees

end

def outline (tree : Tree) (indent : Nat) (locations : Bool) : String :=
  "\n".intercalate (tree.outlineLines indent locations)

end Tree

end Headfirst
