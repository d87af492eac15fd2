namespace Headfirst

/-- A pattern reads the front of a text.  It answers with the number of characters it
takes, or with nothing where it does not match. -/
abbrev Pattern := List Char → Option Nat

namespace Pattern

def one (accepts : Char → Bool) : Pattern
  | [] => none
  | char :: _ => if accepts char then some 1 else none

def exactly (expected : List Char) : Pattern := fun text =>
  if expected.isPrefixOf text then some expected.length else none

def many (accepts : Char → Bool) : Pattern := fun text =>
  some (text.takeWhile accepts).length

def several (accepts : Char → Bool) : Pattern := fun text =>
  match text.takeWhile accepts with
  | [] => none
  | taken => some taken.length

def andThen (first second : Pattern) : Pattern := fun text =>
  match first text with
  | none => none
  | some taken => (second (text.drop taken)).map (taken + ·)

def orElse (first second : Pattern) : Pattern := fun text =>
  (first text).or (second text)

def optional (pattern : Pattern) : Pattern :=
  orElse pattern fun _ => some 0

end Pattern

end Headfirst
