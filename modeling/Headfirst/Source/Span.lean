import Headfirst.Source.Loc

namespace Headfirst

/-- A stretch of a file, the end excluded.  Lines and columns count from one, and a
span with line zero is unknown. -/
structure Span where
  file : String
  line : Int
  column : Int
  endLine : Int
  endColumn : Int
deriving DecidableEq, Repr

namespace Span

/-- A span whose end, where it is not given, is its start. -/
def make (file : String) (line column endLine endColumn : Int) : Span :=
  ⟨file, line, column, if endLine = 0 then line else endLine,
    if endColumn = 0 then column else endColumn⟩

def nowhere : Span := make "" 0 0 0 0

instance : Inhabited Span := ⟨nowhere⟩

def point (loc : Loc) : Span :=
  make loc.file loc.line loc.col 0 0

/-- The span of a text that starts at `loc`.  A text of several lines ends on its last
one; within a line even an empty text covers one column. -/
def ofText (loc : Loc) (text : String) : Span :=
  let breaks := text.toList.count '\n'
  if breaks = 0 then
    make loc.file loc.line loc.col loc.line (loc.col + max 1 text.length)
  else
    make loc.file loc.line loc.col (loc.line + breaks)
      ((text.toList.reverse.takeWhile (· ≠ '\n')).length + 1)

def text (span : Span) : String :=
  if span.file = "" ∧ span.line = 0 then "<unknown location>"
  else
    ":".intercalate <|
      (if span.file = "" then [] else [span.file]) ++
        if span.line > 0 then
          toString span.line :: if span.column > 0 then [toString span.column] else []
        else []

end Span

end Headfirst
