namespace Headfirst

/-! How diagnostics are classified and numbered. -/

inductive Severity where
  | error
  | warning
  | note
deriving DecidableEq, Repr

def Severity.text : Severity → String
  | error => "error"
  | warning => "warning"
  | note => "note"

inductive Phase where
  | lexical
  | resolution
  | internal
deriving DecidableEq, Repr

def Phase.text : Phase → String
  | lexical => "lexical"
  | resolution => "rewrite"
  | internal => "internal"

inductive FaultKind where
  | unbalancedDelimiter
  | invalidCharacter
  | nestingTooDeep
  | malformedOperand
  | expectedHeadGroup
  | unknownConstruct
  | malformedHead
  | expectedBody
  | limitExceeded
  | internalError
deriving DecidableEq, Repr

def FaultKind.name : FaultKind → String
  | unbalancedDelimiter => "UNBALANCED_DELIMITER"
  | invalidCharacter => "INVALID_CHARACTER"
  | nestingTooDeep => "NESTING_TOO_DEEP"
  | malformedOperand => "MALFORMED_OPERAND"
  | expectedHeadGroup => "EXPECTED_HEAD_GROUP"
  | unknownConstruct => "UNKNOWN_CONSTRUCT"
  | malformedHead => "MALFORMED_HEAD"
  | expectedBody => "EXPECTED_BODY"
  | limitExceeded => "REWRITE_LIMIT_EXCEEDED"
  | internalError => "INTERNAL_ERROR"

/-- The number of a problem within a series, and what the number stands for. -/
structure Code where
  series : String
  number : Int
  kind : FaultKind
  phase : Phase
  severity : Severity := .error
deriving DecidableEq, Repr

namespace Code

/-- A number in at least four columns, filled with zeros after the sign. -/
def digits (number : Int) : String :=
  let sign := if number < 0 then "-" else ""
  let numeral := toString number.natAbs
  sign ++ "".pushn '0' (4 - sign.length - numeral.length) ++ numeral

def text (code : Code) : String :=
  code.series ++ "-" ++ digits code.number

def summary (code : Code) : String :=
  s!"ErrorCode({code.text}, {code.kind.name})"

/-- Codes are the same when series and number are. -/
def same (left right : Code) : Bool :=
  left.series == right.series && left.number == right.number

/-- Numbers below 1000 are lexical, those from 1000 belong to constructs, and those from
9000 to the program itself. -/
def spin (number : Nat) (kind : FaultKind) (phase : Phase) : Code :=
  ⟨"SPIN", number, kind, phase, .error⟩

def invalidCharacter : Code := spin 1 .invalidCharacter .lexical
def unbalancedDelimiter : Code := spin 2 .unbalancedDelimiter .lexical
def nestingTooDeep : Code := spin 3 .nestingTooDeep .lexical
def malformedOperand : Code := spin 1000 .malformedOperand .resolution
def expectedHeadGroup : Code := spin 1001 .expectedHeadGroup .resolution
def unknownConstruct : Code := spin 1002 .unknownConstruct .resolution
def malformedHead : Code := spin 1003 .malformedHead .resolution
def expectedBody : Code := spin 1004 .expectedBody .resolution
def limitExceeded : Code := spin 1005 .limitExceeded .resolution
def internalError : Code := spin 9000 .internalError .internal

def all : List Code :=
  [invalidCharacter, unbalancedDelimiter, nestingTooDeep, malformedOperand,
    expectedHeadGroup, unknownConstruct, malformedHead, expectedBody, limitExceeded,
    internalError]

end Code

end Headfirst
