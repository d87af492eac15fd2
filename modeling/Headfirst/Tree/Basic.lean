import Headfirst.Source.Span

namespace Headfirst

/-! Token trees.

A fragment is a sequence of trees: single tokens, and groups that own what stands
between two brackets.  White space and comments are no tokens; they are the `leading`
trivia of the token or bracket that follows them. -/

/-- The kinds of brackets.  An invisible group has none: it only holds its children
together. -/
inductive Delimiter where
  | paren
  | brace
  | bracket
  | invisible
deriving DecidableEq, Repr

namespace Delimiter

def opening : Delimiter → String
  | paren => "("
  | brace => "\x7b"
  | bracket => "["
  | invisible => ""

def closing : Delimiter → String
  | paren => ")"
  | brace => "\x7d"
  | bracket => "]"
  | invisible => ""

def name : Delimiter → String
  | paren => "PAREN"
  | brace => "BRACE"
  | bracket => "BRACKET"
  | invisible => "NONE"

end Delimiter

inductive TokenKind where
  | ident
  | lifetime
  | literal
  | punct
deriving DecidableEq, Repr

def TokenKind.name : TokenKind → String
  | ident => "IDENT"
  | lifetime => "LIFETIME"
  | literal => "LITERAL"
  | punct => "PUNCT"

structure Token where
  kind : TokenKind
  text : String
  loc : Loc := .unknown
  leading : String := ""
deriving DecidableEq, Repr

/-- The brackets of a group, with their places and the trivia in front of each. -/
structure Bracket where
  delimiter : Delimiter
  loc : Loc := .unknown
  endLoc : Loc := .unknown
  leading : String := ""
  closeLeading : String := ""
deriving DecidableEq, Repr

inductive Tree where
  | leaf (token : Token)
  | group (bracket : Bracket) (children : List Tree)
deriving Repr

def reservedWords : List String :=
  ["as", "async", "await", "box", "break", "const", "continue", "crate", "dyn", "else",
    "enum", "extern", "false", "fn", "for", "if", "impl", "in", "let", "loop", "match",
    "mod", "move", "mut", "pub", "ref", "return", "self", "Self", "static", "struct",
    "super", "trait", "true", "try", "type", "unsafe", "use", "where", "while", "yield"]

namespace Token

def isPunct (token : Token) (text : String) : Bool :=
  token.kind == .punct && token.text == text

def isReserved (token : Token) : Bool :=
  token.kind == .ident && reservedWords.contains token.text

def isKeyword (token : Token) (text : String) : Bool :=
  token.isReserved && token.text == text

end Token

namespace Tree

instance : Inhabited Tree := ⟨.leaf ⟨.ident, "", .unknown, ""⟩⟩

def loc : Tree → Loc
  | leaf token => token.loc
  | group bracket _ => bracket.loc

def leading : Tree → String
  | leaf token => token.leading
  | group bracket _ => bracket.leading

def children : Tree → List Tree
  | leaf _ => []
  | group _ children => children

/-- The source text of a tree: of a token its own text, of a group everything from
bracket to bracket.  A group whose end is unknown covers one column, and a tree
without a place has only the name of its file. -/
def span : Tree → Span
  | leaf token =>
      if token.loc.line = 0 then .make token.loc.file 0 0 0 0
      else .ofText token.loc token.text
  | group bracket _ =>
      let loc := bracket.loc
      if loc.line = 0 then .make loc.file 0 0 0 0
      else if bracket.endLoc.line > 0 then
        .make loc.file loc.line loc.col bracket.endLoc.line (bracket.endLoc.col + 1)
      else .ofText loc ""

def withLeading (leading : String) : Tree → Tree
  | leaf token => leaf { token with leading }
  | group bracket children => group { bracket with leading } children

/-- A tree that follows another one: where nothing separates them, one space does. -/
def separated (tree : Tree) : Tree :=
  if tree.leading = "" then tree.withLeading " " else tree

@[simp] theorem leading_withLeading (leading : String) (tree : Tree) :
    (tree.withLeading leading).leading = leading := by
  cases tree <;> rfl

@[simp] theorem withLeading_leading (tree : Tree) : tree.withLeading tree.leading = tree := by
  cases tree <;> rfl

/-! Tests on single trees. -/

def anyToken (test : Token → Bool) : Tree → Bool
  | leaf token => test token
  | group _ _ => false

def isPunct (text : String) : Tree → Bool :=
  anyToken (·.isPunct text)

def isAnyPunct : Tree → Bool :=
  anyToken (·.kind == .punct)

def isAnyIdent : Tree → Bool :=
  anyToken (·.kind == .ident)

def isKeyword (text : String) : Tree → Bool :=
  anyToken (·.isKeyword text)

def isLifetime : Tree → Bool :=
  anyToken (·.kind == .lifetime)

def isPunctIn (texts : List String) : Tree → Bool :=
  anyToken fun token => token.kind == .punct && texts.contains token.text

def isKeywordIn (texts : List String) : Tree → Bool :=
  anyToken fun token => token.isReserved && texts.contains token.text

def isGroup (delimiter : Delimiter) : Tree → Bool
  | leaf _ => false
  | group bracket _ => bracket.delimiter == delimiter

def isInvisible : Tree → Bool :=
  isGroup .invisible

end Tree

/-- The place of the first tree that has one. -/
def firstLoc (trees : List Tree) : Loc :=
  match trees.find? (0 < ·.loc.line) with
  | some tree => tree.loc
  | none => .unknown

end Headfirst
