import Headfirst.Lexeme.Pattern
import Headfirst.Tree.Basic

namespace Headfirst.Lexeme

/-! The classes of tokens.  Letters and digits here are those of ASCII. -/

def startsWord (char : Char) : Bool :=
  char.isAlpha || char == '_'

def continuesWord (char : Char) : Bool :=
  char.isAlphanum || char == '_'

def isHexDigit (char : Char) : Bool :=
  char.isDigit || ('a' ≤ char && char ≤ 'f') || ('A' ≤ char && char ≤ 'F')

def word : Pattern :=
  .andThen (.one startsWord) (.many continuesWord)

def identifier : Pattern :=
  .orElse (.andThen (.exactly ['r', '#']) word) word

def lifetime : Pattern :=
  .andThen (.exactly ['\'']) identifier

def bracedCode : Pattern
  | '\x7b' :: rest =>
      match (rest.takeWhile fun char => isHexDigit char || char == '_').length with
      | 0 => none
      | digits + 1 =>
          if digits < 6 ∧ rest[digits + 1]? = some '\x7d' then some (digits + 3) else none
  | _ => none

def charEscape : Pattern :=
  .orElse (.andThen (.exactly ['x']) (.andThen (.one isHexDigit) (.one isHexDigit))) <|
    .orElse (.andThen (.exactly ['u']) bracedCode)
      (.one fun char => ['n', 'r', 't', '0', '\\', '\'', '"'].contains char)

def charLiteral : Pattern :=
  .andThen (.optional (.exactly ['b'])) <|
    .andThen (.exactly ['\'']) <|
      .andThen
        (.orElse (.one fun char => ['\'', '\\', '\r', '\n'].all (char ≠ ·))
          (.andThen (.exactly ['\\']) charEscape))
        (.exactly ['\''])

/-- The length of a raw string's rest: up to the first quotation mark that the given
number of hash signs follows. -/
def rawStringEnd (hashes : Nat) : Pattern
  | [] => none
  | char :: rest =>
      if char = '"' ∧ (List.replicate hashes '#').isPrefixOf rest then some (1 + hashes)
      else (rawStringEnd hashes rest).map (· + 1)

/-- The quoted part of a raw string: hash signs, a text in quotation marks, and the
same number of hash signs again. -/
def hashedString : Pattern := fun text =>
  let hashes := (text.takeWhile (· == '#')).length
  Pattern.andThen (.andThen (.many (· == '#')) (.exactly ['"'])) (rawStringEnd hashes) text

def stringMark : Pattern :=
  .optional (.one fun char => char == 'b' || char == 'c')

def rawString : Pattern :=
  .andThen stringMark (.andThen (.exactly ['r']) hashedString)

/-- The length of a string's rest, up to and including the closing quotation mark.  A
backslash takes the character after it along. -/
def stringEnd : Pattern
  | [] => none
  | '"' :: _ => some 1
  | '\\' :: _ :: rest => (stringEnd rest).map (· + 2)
  | _ :: rest => (stringEnd rest).map (· + 1)

def stringLiteral : Pattern :=
  .andThen stringMark (.andThen (.exactly ['"']) stringEnd)

def isDigitOrUnderscore (char : Char) : Bool :=
  char.isDigit || char == '_'

def digits : Pattern :=
  .andThen (.one Char.isDigit) (.many isDigitOrUnderscore)

/-- A number: digits, a fraction, an exponent and a suffix, of which only the first is
required. -/
def number : Pattern :=
  .andThen digits <|
    .andThen (.optional (.andThen (.exactly ['.']) digits)) <|
      .andThen
        (.optional <|
          .andThen (.one fun char => char == 'e' || char == 'E') <|
            .andThen (.optional (.one fun char => char == '+' || char == '-'))
              (.several isDigitOrUnderscore))
        (.optional word)

/-- Operators of several characters, longer ones first. -/
def longOperators : List String :=
  ["<<=", ">>=", "...", "..=", "::", "->", "=>", "==", "!=", "<=", ">=", "&&", "||", "+=",
    "-=", "*=", "/=", "%=", "^=", "&=", "|=", "<<", ">>", ".."]

def shortOperators : List Char :=
  "-+*/%^!&|=<>@.,;:#$?~".toList

def punctuation : Pattern := fun text =>
  match longOperators.find? (·.toList.isPrefixOf text) with
  | some operator => some operator.length
  | none => Pattern.one shortOperators.contains text

/-- The token classes in the order in which they are tried. -/
def classes : List (TokenKind × Pattern) :=
  [(.literal, charLiteral), (.lifetime, lifetime), (.literal, rawString),
    (.literal, stringLiteral), (.literal, number), (.ident, identifier),
    (.punct, punctuation)]

def first (text : List Char) : Option (TokenKind × Nat) :=
  classes.findSome? fun (kind, pattern) => (pattern text).map (kind, ·)

end Headfirst.Lexeme
