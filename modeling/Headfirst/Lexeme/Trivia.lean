import Headfirst.Lexeme.Pattern
import Headfirst.Text.Basic

namespace Headfirst.Trivia

/-! White space and comments, which stand between tokens. -/

/-- The length of a text up to and including the first end of a block comment. -/
def blockCommentEnd : Pattern
  | [] => none
  | '*' :: '/' :: _ => some 2
  | _ :: rest => (blockCommentEnd rest).map (· + 1)

def lineComment : Pattern :=
  .andThen (.exactly ['/', '/']) (.many (· != '\n'))

/-- A comment up to the first closing mark.  Without one it is no comment. -/
def blockComment : Pattern :=
  .andThen (.exactly ['/', '*']) blockCommentEnd

def item : Pattern :=
  .orElse (.one Text.isBlank) (.orElse lineComment blockComment)

def length : List Char → Nat
  | [] => 0
  | char :: rest =>
      match item (char :: rest) with
      | some (further + 1) => further + 1 + length (rest.drop further)
      | _ => 0
termination_by text => text.length
decreasing_by
  rw [List.length_drop, List.length_cons]
  omega

variable {char : Char} {rest : List Char} {further : Nat}

theorem length_nil : length [] = 0 := by
  rw [length.eq_def]

theorem length_item (found : item (char :: rest) = some (further + 1)) :
    length (char :: rest) = further + 1 + length (rest.drop further) := by
  rw [length.eq_def]
  simp only [found]

theorem length_noItem (noItem : item (char :: rest) = none) : length (char :: rest) = 0 := by
  rw [length.eq_def]
  simp only [noItem]

end Headfirst.Trivia
