import Headfirst.Diagnostic.Code
import Headfirst.Source.Span
import Headfirst.Text.Lines

namespace Headfirst

/-! Diagnostics: problems with all that is shown about them. -/

/-- The families of problems.  Every family but `general` belongs to a wider one. -/
inductive Category where
  | general
  | lexical
  | occurrence
  | operand
  | headGroup
  | construct (keyword : String)
  | head
  | body
  | limit (bound : Int)
deriving DecidableEq, Repr

namespace Category

def defaultCode : Category → Code
  | general => .internalError
  | lexical => .invalidCharacter
  | occurrence => .internalError
  | operand => .malformedOperand
  | headGroup => .expectedHeadGroup
  | construct _ => .unknownConstruct
  | head => .malformedHead
  | body => .expectedBody
  | limit _ => .limitExceeded

def lineage : Category → List Category
  | general => [general]
  | lexical => [lexical, general]
  | occurrence => [occurrence, general]
  | family => [family, occurrence, general]

end Category

structure Note where
  message : String
  span : Option Span
  label : String
deriving DecidableEq, Repr

def Note.text (note : Note) : String :=
  let labelled := (if note.label = "" then "" else note.label ++ ": ") ++ note.message
  match note.span with
  | none => labelled
  | some span => span.text ++ ": " ++ labelled

/-- A problem as it is shown to the user.  An empty `sourceLine` or `hint` is absent. -/
structure Diagnostic where
  category : Category
  code : Code
  message : String
  span : Span
  severity : Severity
  notes : List Note
  hint : String
  sourceLine : String := ""
deriving DecidableEq, Repr

namespace Diagnostic

def addNote (diagnostic : Diagnostic) (note : Note) : Diagnostic :=
  { diagnostic with notes := diagnostic.notes ++ [note] }

def withHint (diagnostic : Diagnostic) (hint : String) : Diagnostic :=
  { diagnostic with hint }

/-- Attaches the line of `source` on which the problem starts, if there is such a line. -/
def withSource (diagnostic : Diagnostic) (source : String) : Diagnostic :=
  if diagnostic.span.line > 0 then
    match (Text.lines source)[diagnostic.span.line.toNat - 1]? with
    | some sourceLine => { diagnostic with sourceLine }
    | none => diagnostic
  else diagnostic

/-- The marks under the source line: at least one, up to the end of the span or of the
line. -/
def underline (span : Span) (sourceLine : String) : String :=
  let before := span.column - 1
  let marks :=
    if span.endLine = span.line then span.endColumn - span.column
    else sourceLine.length - before
  "".pushn ' ' before.toNat |>.pushn '^' (max 1 marks).toNat

def headline (diagnostic : Diagnostic) : String :=
  s!"{diagnostic.span.text}: {diagnostic.severity.text}: {diagnostic.message} [{diagnostic.code.text}]"

def excerpt (diagnostic : Diagnostic) : List String :=
  if diagnostic.sourceLine = "" then []
  else
    ("    " ++ diagnostic.sourceLine) ::
      if diagnostic.span.column > 0 then
        ["    " ++ underline diagnostic.span diagnostic.sourceLine]
      else []

def text (diagnostic : Diagnostic) : String :=
  "\n".intercalate <|
    diagnostic.headline :: diagnostic.excerpt ++ diagnostic.notes.map Note.text ++
      if diagnostic.hint = "" then [] else ["hint: " ++ diagnostic.hint]

end Diagnostic

end Headfirst
