import Headfirst.Fault
import Headfirst.Tree.View

namespace Headfirst

/-! The operand of a marker: the expression in front of it.

The scan goes backward over the siblings, so sequences here are nearest first.  It stops
at the end of the previous statement or list item, at whatever introduces an expression,
and after a block statement; an invisible group is an earlier replacement and begins the
operand. -/

namespace Operand

def terminators : List String := [";", ","]

def bindingIntroducers : List String :=
  ["=", "+=", "-=", "*=", "/=", "%=", "^=", "&=", "|=", "<<=", ">>=", "=>"]

def boundaryKeywords : List String :=
  ["return", "break", "yield", "in", "match", "if", "while", "let"]

def blockKeywords : List String :=
  ["for", "while", "if", "else", "loop", "unsafe", "match"]

/-- Punctuation that cannot end an expression. -/
def danglingOperators : List String :=
  ["+", "-", "*", "/", "%", "^", "&", "|", "&&", "||", "!", "==", "!=", "<", "<=", ">", ">=",
    "<<", ">>", ".", "::", "->", ":", "@", "#"]

def isTerminator (tree : Tree) : Bool :=
  tree.isPunctIn terminators

/-- A tree that ends the scan and is not part of the operand. -/
def isBoundary (tree : Tree) : Bool :=
  tree.isPunctIn terminators || tree.isPunctIn bindingIntroducers ||
    tree.isKeywordIn boundaryKeywords

def skipLabel : List Tree → List Tree
  | colon :: lifetime :: before =>
      if colon.isPunct ":" && lifetime.isLifetime then before else colon :: lifetime :: before
  | before => before

def startsStatement (before : List Tree) : Bool :=
  match skipLabel before with
  | [] => true
  | previous :: _ => previous.isPunct ";" || previous.isGroup .brace

/-- Whether the nearest block keyword, with no terminator in between, opens a statement. -/
def inBlockStatement : List Tree → Bool
  | [] => false
  | tree :: before =>
      if isTerminator tree then false
      else if tree.isKeywordIn blockKeywords then startsStatement before
      else inBlockStatement before

/-- Whether a tree is the block at the end of a block statement.  Punctuation after it
makes it part of a larger expression. -/
def closesBlockStatement (before : List Tree) (tree : Tree) (next : Option Tree) : Bool :=
  tree.isGroup .brace && !next.any Tree.isAnyPunct && inBlockStatement before

/-- How many of the siblings before `next`, of which at most `reach` are in reach, belong
to the operand. -/
def extent : (reach : Nat) → (before : List Tree) → (next : Tree) → Nat
  | 0, _, _ => 0
  | _, [], _ => 0
  | reach + 1, tree :: before, next =>
      if isBoundary tree || closesBlockStatement before tree (some next) then 0
      else if tree.isInvisible then 1
      else extent reach before tree + 1

/-- The length of the operand in front of a marker.  The nearest sibling belongs to it
even if it closes a block statement. -/
def length (reach : Nat) (before : List Tree) : Nat :=
  match reach, before with
  | 0, _ => 0
  | _, [] => 0
  | reach + 1, tree :: before =>
      if isBoundary tree then 0
      else if tree.isInvisible then 1
      else extent reach before tree + 1

theorem extent_le (reach : Nat) (before : List Tree) (next : Tree) :
    extent reach before next ≤ before.length := by
  fun_induction extent reach before next <;> simp_all

theorem length_le (reach : Nat) (before : List Tree) : length reach before ≤ before.length := by
  unfold length
  split <;> try simp
  split <;> try simp
  split
  · simp
  · simpa using extent_le ..

/-- The operand in front of `marker`, nearest tree first. -/
def take (reach : Nat) (before : List Tree) (marker : Tree) : Except Failure (List Tree) :=
  match before.take (length reach before) with
  | [] => .error ⟨.noOperand, marker.span, none⟩
  | last :: others =>
      match last with
      | .leaf token =>
          if last.isPunctIn danglingOperators then
            .error ⟨.danglingOperator token.text, last.span, none⟩
          else .ok (last :: others)
      | .group .. => .ok (last :: others)

end Operand

end Headfirst
