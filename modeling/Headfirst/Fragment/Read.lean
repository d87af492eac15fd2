import Headfirst.Fragment.Basic
import Headfirst.Fragment.Grammar

namespace Headfirst

/-- A character of a text and the place where it stands. -/
structure Spot where
  loc : Loc
  char : Char
deriving DecidableEq, Repr

namespace Spot

def isOpener (spot : Spot) : Bool :=
  (openerDelimiter? spot.char).isSome

/-- Why a text cannot be read, by the character at which it cannot. -/
def fault (spot : Spot) : Fault :=
  if (closerDelimiter? spot.char).isSome then .strayCloser spot.char
  else if spot.isOpener then .unclosed spot.char
  else if spot.char = '"' then .openString
  else .unknownCharacter spot.char

def failure (spot : Spot) : Failure :=
  ⟨spot.fault, .point spot.loc, none⟩

end Spot

namespace Fragment

open Grammar (maxNesting)

/-! Reading a source text by the grammar of token trees. -/

/-- Where the walk goes on: behind an opening bracket, if one stands there, which then is
the innermost open one. -/
def enter (marks : List Spot) (loc : Loc) : (text : List Char) → List Spot × Loc × List Char
  | [] => (marks, loc, [])
  | char :: rest =>
      if (openerDelimiter? char).isSome then (⟨loc, char⟩ :: marks, loc.next char, rest)
      else (marks, loc, char :: rest)

theorem length_enter_le (marks : List Spot) (loc : Loc) (text : List Char) :
    (enter marks loc text).2.2.length ≤ text.length := by
  cases text with
  | nil => exact Nat.le_refl _
  | cons char rest =>
      rw [enter]
      split
      · exact Nat.le_succ _
      · exact Nat.le_refl _

/-- The first character that keeps a text from being read.  A stream ends in front of a
group that does not match, so what is wrong may lie further inside: the walk goes into one
such group after another and keeps the brackets that are open, innermost first. -/
def walk (outermost : Spot) (marks : List Spot) (loc : Loc) (text : List Char) : Spot :=
  match Grammar.nested maxNesting loc text with
  | .matched _ taken =>
      let stop := loc.past (text.take taken)
      match _found : text.drop taken with
      | [] => marks.headD outermost
      | char :: rest =>
          match closerDelimiter? char, marks with
          | some delimiter, innermost :: outer =>
              if openerDelimiter? innermost.char = some delimiter then
                let entry := enter outer (stop.next char) rest
                walk outermost entry.1 entry.2.1 entry.2.2
              else ⟨stop, char⟩
          | some _, [] => ⟨stop, char⟩
          | none, _ =>
              if (openerDelimiter? char).isSome then
                walk outermost (⟨stop, char⟩ :: marks) (stop.next char) rest
              else ⟨stop, char⟩
  | _ => outermost
termination_by text.length
decreasing_by
  · have entered := length_enter_le outer ((loc.past (text.take taken)).next char) rest
    have shorter := congrArg List.length _found
    simp only [List.length_drop, List.length_cons] at shorter
    omega
  · have shorter := congrArg List.length _found
    simp only [List.length_drop, List.length_cons] at shorter
    omega

/-- What keeps a text from being read whose outermost stream ends at `spot`. -/
def culprit (spot : Spot) (rest : List Char) : Spot :=
  if spot.isOpener then walk spot [spot] (spot.loc.next spot.char) rest else spot

def firstOpener (loc : Loc) (text : List Char) : Loc :=
  match text.findIdx? fun char => (openerDelimiter? char).isSome with
  | some index => loc.past (text.take index)
  | none => loc

/-- The fragment a source text stands for.  Nesting that is too deep is reported at the
first opening bracket of the source. -/
def read (source file : String) : Except Failure Fragment :=
  let start := Loc.start file
  let text := source.toList
  match Grammar.nested maxNesting start text with
  | .matched stretch taken =>
      match text.drop taken with
      | [] =>
          let bracket := { delimiter := .invisible, loc := start, closeLeading := stretch.trailing }
          .ok ⟨bracket, stretch.trees⟩
      | char :: rest => .error (culprit ⟨start.past (text.take taken), char⟩ rest).failure
  | _ => .error ⟨.bracketsTooDeep, .point (firstOpener start text), none⟩

end Fragment

end Headfirst
