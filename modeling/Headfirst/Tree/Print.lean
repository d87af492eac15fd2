import Headfirst.Text.Alphanumeric
import Headfirst.Tree.Basic

namespace Headfirst.Tree

/-! Source text of a tree: with its recorded trivia, or with single spaces. -/

/-- A piece of output: trivia and the token or bracket that follows it.  The brackets
of an invisible group are pieces without text. -/
structure Piece where
  leading : String
  text : String
deriving DecidableEq, Repr

mutual

def pieces : Tree → List Piece
  | leaf token => [⟨token.leading, token.text⟩]
  | group bracket children =>
      ⟨bracket.leading, bracket.delimiter.opening⟩ :: piecesAll children ++
        [⟨bracket.closeLeading, bracket.delimiter.closing⟩]

def piecesAll : List Tree → List Piece
  | [] => []
  | tree :: trees => tree.pieces ++ piecesAll trees

end

/-- Characters that would run together with a neighbour of the same kind. -/
def isWordy (char : Char) : Bool :=
  Text.isAlphanumeric char || char == '_' || char == '\'' || char == '"'

/-- A piece as it is written after the character `last`.  Two wordy texts with no
trivia between them are kept apart by a space. -/
def written (last : Option Char) (piece : Piece) : List Char :=
  let clash :=
    piece.leading.isEmpty && last.any isWordy && piece.text.toList.head?.any isWordy
  (if clash then [' '] else piece.leading.toList) ++ piece.text.toList

def joined (last : Option Char) : List Piece → List Char
  | [] => []
  | piece :: pieces =>
      let text := written last piece
      text ++ joined (text.getLast?.or last) pieces

/-- The source text of a fragment.  The trivia in front of an outermost group belongs
to whatever holds the group, and is left out. -/
def render (tree : Tree) : String :=
  String.ofList <| joined none <|
    match tree with
    | leaf token => (leaf token).pieces
    | group bracket children => (group { bracket with leading := "" } children).pieces

mutual

def words : Tree → List String
  | leaf token => [token.text]
  | group bracket children =>
      if bracket.delimiter = .invisible then wordsAll children
      else bracket.delimiter.opening :: wordsAll children ++ [bracket.delimiter.closing]

def wordsAll : List Tree → List String
  | [] => []
  | tree :: trees => tree.words ++ wordsAll trees

end

/-- The tokens and brackets of a tree with one space between neighbours, whatever
the layout was. -/
def compact (tree : Tree) : String :=
  " ".intercalate tree.words

end Headfirst.Tree
