import Headfirst.Diagnostic.Basic
import Headfirst.Text.Printable

namespace Headfirst

/-! The stack of calls.

What goes through a tree mostly keeps a list of what is still to be done, and then no nesting is too
deep for it.  Three things are done by calls within calls, as many as groups are around each other:
brackets are parsed, the tree of a run is copied, and invocations are looked for.  How deep they go
is a matter of the interpreter they run on.  The numbers are those of one with the usual limit; they
depend by a few levels on what calls the program. -/

namespace Stack

/-- The calls that may be open at a time.  A run whose tree is too deep names this limit. -/
def frames : Nat := 1000

/-- The calls between the parsing of a bracket and that of one within it. -/
def parsing : Nat := 10

/-- The calls between the copying of a group and that of one within it. -/
def copying : Nat := 6

/-- What is said where a call more would be open, unless it is said of a tree. -/
def overflow : String := "maximum recursion depth exceeded"

end Stack

/-! Everything that can be wrong with a fragment, with the wording. -/

/-- Why a fragment cannot be read, or an occurrence of the marker not be resolved. -/
inductive Fault where
  | strayCloser (closer : Char)
  | unclosed (opener : Char)
  | openString
  | unknownCharacter (char : Char)
  | bracketsTooDeep
  | noOperand
  | danglingOperator (operator : String)
  | noHeadGroup
  | emptyHead
  | loneLabel (lifetime : String)
  | unknownConstruct (word : String)
  | misplacedLabel (word : String)
  | strayInHead (found construct : String)
  /-- A condition written into the head, where it is the operand's place. -/
  | conditionInHead (found keyword : String)
  | noPattern (keywords : String)
  | noLink (keywords link : String)
  | noPatternBefore (keywords link : String)
  | noBody (keywords : String)
  | danglingElse
  | incompleteElseIf
  | tooManySplices (bound : Int)
  | noFixpoint (passes : Nat) (bound : Int)
  /-- A pass after which the markers are not as many as its splices leave. -/
  | markersDrifted (before after splices : Nat)
  | treeTooDeep
deriving DecidableEq, Repr

namespace Fault

def depthBound : Int := Stack.frames

def category : Fault → Category
  | strayCloser _ | unclosed _ | openString | unknownCharacter _ | bracketsTooDeep => .lexical
  | noOperand | danglingOperator _ => .operand
  | noHeadGroup => .headGroup
  | emptyHead => .construct ""
  | loneLabel word | unknownConstruct word | misplacedLabel word => .construct word
  | strayInHead .. | conditionInHead .. | noPattern _ | noLink .. | noPatternBefore .. => .head
  | noBody _ | danglingElse | incompleteElseIf => .body
  | tooManySplices bound | noFixpoint _ bound => .limit bound
  | markersDrifted before _ _ => .limit before
  | treeTooDeep => .limit depthBound

def code : Fault → Code
  | strayCloser _ | unclosed _ => .unbalancedDelimiter
  | bracketsTooDeep => .nestingTooDeep
  | fault => fault.category.defaultCode

def message : Fault → String
  | strayCloser closer => s!"unexpected closing delimiter {Text.quoted closer.toString}"
  | unclosed opener => s!"unclosed delimiter {Text.quoted opener.toString}"
  | openString => "unterminated string literal"
  | unknownCharacter char => s!"unrecognized character {Text.quoted char.toString}"
  | bracketsTooDeep => "brackets are nested too deeply"
  | noOperand => "expected an expression before the postfix marker"
  | danglingOperator operator => s!"operand ends with dangling operator {Text.quoted operator}"
  | noHeadGroup => "expected a parenthesized construct head after the postfix marker"
  | emptyHead => "empty construct head"
  | loneLabel word | unknownConstruct word => s!"unknown construct {Text.quoted word}"
  | misplacedLabel word =>
      s!"expected 'loop', 'while', 'for' or a block after label, found {Text.quoted word}"
  | strayInHead found construct => s!"unexpected {Text.quoted found} in {construct} head"
  | conditionInHead found keyword => s!"unexpected {Text.quoted found} in {keyword} head"
  | noPattern keywords => s!"expected a pattern after {Text.quoted keywords}"
  | noLink keywords link =>
      s!"expected {Text.quoted link} at the end of the {Text.quoted keywords} head"
  | noPatternBefore keywords link =>
      s!"expected a pattern between {Text.quoted keywords} and {Text.quoted link}"
  | noBody keywords => s!"expected a block after '{keywords}' construct head"
  | danglingElse => "expected a block or 'if' after 'else'"
  | incompleteElseIf => "expected a condition and a block after 'else if'"
  | tooManySplices bound => s!"more than {bound} rewrites"
  | noFixpoint passes _ => s!"rewrite did not converge after {passes} passes"
  | markersDrifted before after splices =>
      s!"marker count went from {before} to {after} after {splices} rewrites"
  | treeTooDeep => "token tree is nested too deeply to rewrite"

def hint : Fault → String
  | unclosed _ => "every opening delimiter needs a matching closing one"
  | bracketsTooDeep => "split the fragment into smaller pieces"
  | noOperand => "write the operand directly in front of '::(...)'"
  | noHeadGroup => "write e.g. value::(match) \x7b ... \x7d"
  | loneLabel _ => "a label must be followed by ':'"
  | conditionInHead _ keyword =>
      s!"the condition is the operand; write ({keyword}) or ({keyword} let <pattern> =)"
  | noLink keywords link => s!"write it as ({keywords} <pattern> {link})"
  | noBody keywords => s!"write e.g. value::({keywords}) \x7b ... \x7d"
  | _ => ""

end Fault

/-- A fault and where it lies.  A fault away from the marker of its occurrence also
says where that marker is. -/
structure Failure where
  fault : Fault
  span : Span
  marker : Option Span := none
deriving DecidableEq, Repr

namespace Failure

def diagnostic (failure : Failure) (severity : Severity := .error) : Diagnostic where
  category := failure.fault.category
  code := failure.fault.code
  message := failure.fault.message
  span := failure.span
  severity := severity
  notes := failure.marker.toList.map fun span => ⟨"postfix construct starts here", some span, "note"⟩
  hint := failure.fault.hint

end Failure

end Headfirst
