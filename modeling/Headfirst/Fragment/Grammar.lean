import Headfirst.Fault
import Headfirst.Lexeme.Classes
import Headfirst.Lexeme.Trivia

namespace Headfirst

def openerDelimiter? : Char → Option Delimiter
  | '(' => some .paren
  | '\x7b' => some .brace
  | '[' => some .bracket
  | _ => none

def closerDelimiter? : Char → Option Delimiter
  | ')' => some .paren
  | '\x7d' => some .brace
  | ']' => some .bracket
  | _ => none

/-! The grammar of token trees:

    stream = trivia (tree trivia)*
    tree   = "(" stream ")"  /  "\x7b" stream "\x7d"  /  "[" stream "]"  /  token

Alternatives are tried in this order.  A group whose closing bracket is missing does not
match at all, so the stream around it ends in front of its opening bracket. -/

namespace Grammar

/-- What a rule makes of the front of a text.  It matches and takes so many characters, it
does not match, or brackets are nested too deeply to say. -/
inductive Attempt (α : Type) where
  | matched (value : α) (taken : Nat)
  | failed
  | tooDeep

/-- The attempt with more in front of what it takes. -/
def Attempt.map {α β : Type} (change : α → β) (ahead : Nat) : Attempt α → Attempt β
  | .matched value taken => .matched (change value) (ahead + taken)
  | .failed => .failed
  | .tooDeep => .tooDeep

/-- A rule reads a text that starts at the given place. -/
abbrev Rule (α : Type) := Loc → List Char → Attempt α

/-- The trees of a stream and the trivia behind the last one. -/
structure Stretch where
  trees : List Tree
  trailing : String

namespace Rule

variable {α : Type}

def orElse (first second : Rule α) : Rule α := fun loc text =>
  match first loc text with
  | .failed => second loc text
  | attempt => attempt

end Rule

def token : Rule Tree := fun loc text =>
  match Lexeme.first text with
  | none => .failed
  | some (kind, taken) =>
      .matched (.leaf { kind, text := String.ofList (text.take taken), loc }) taken

/-- A group in brackets of one kind, with `inside` between them. -/
def group (delimiter : Delimiter) (inside : Rule Stretch) : Rule Tree := fun loc text =>
  match text with
  | [] => .failed
  | opening :: rest =>
      if openerDelimiter? opening = some delimiter then
        match inside (loc.next opening) rest with
        | .failed => .failed
        | .tooDeep => .tooDeep
        | .matched stretch taken =>
            match rest.drop taken with
            | [] => .failed
            | closing :: _ =>
                if closerDelimiter? closing = some delimiter then
                  let endLoc := (loc.next opening).past (rest.take taken)
                  let bracket := { delimiter, loc, endLoc, closeLeading := stretch.trailing }
                  .matched (.group bracket stretch.trees) (taken + 2)
                else .failed
      else .failed

def tree (inside : Rule Stretch) : Rule Tree :=
  .orElse (group .paren inside) <| .orElse (group .brace inside) <|
    .orElse (group .bracket inside) token

/-- A stream of trees.  Trivia belongs to the tree that follows it. -/
def stream (tree : Rule Tree) (loc : Loc) (text : List Char) : Attempt Stretch :=
  let ahead := Trivia.length text
  let leading := String.ofList (text.take ahead)
  match _found : text.drop ahead with
  | [] => .matched ⟨[], leading⟩ ahead
  | char :: rest =>
      match tree (loc.past (text.take ahead)) (char :: rest) with
      | .tooDeep => .tooDeep
      | .matched first (further + 1) =>
          let lexeme := char :: rest.take further
          (stream tree ((loc.past (text.take ahead)).past lexeme) (rest.drop further)).map
            (fun stretch => { stretch with trees := first.withLeading leading :: stretch.trees })
            (ahead + (further + 1))
      | _ => .matched ⟨[], leading⟩ ahead
termination_by text.length
decreasing_by
  have shorter := congrArg List.length _found
  simp only [List.length_drop, List.length_cons] at *
  omega

/-- A stream in which brackets may be nested so deep. -/
def nested : (depth : Nat) → Rule Stretch
  | 0 => stream (tree fun _ _ => .tooDeep)
  | depth + 1 => stream (tree (nested depth))

/-- How deep the stack lets brackets be nested.  Some twenty calls are open before the first. -/
def maxNesting : Nat := (Stack.frames - 20) / Stack.parsing

end Grammar

end Headfirst
