import Headfirst.Diagnostic.Basic
import Headfirst.Json

namespace Headfirst

/-! Diagnostics as JSON records. -/

namespace Diagnostic

def place (file : String) (line column : Int) : List (String × Json) :=
  [("file", .str file), ("line", .int line), ("column", .int column)]

def noteRecord (note : Note) : Json :=
  .obj
    [("message", .str note.message),
      ("label", .str note.label),
      ("location", match note.span with
        | none => .null
        | some span => .obj (place span.file span.line span.column))]

def record (diagnostic : Diagnostic) : Json :=
  let span := diagnostic.span
  .obj
    [("code", .str diagnostic.code.text),
      ("kind", .str diagnostic.code.kind.name),
      ("message", .str diagnostic.message),
      ("severity", .str diagnostic.severity.text),
      ("location", .obj <| place span.file span.line span.column ++
        [("end_line", .int span.endLine), ("end_column", .int span.endColumn)]),
      ("phase", .str diagnostic.code.phase.text),
      ("notes", .arr (diagnostic.notes.map noteRecord)),
      ("hint", .str diagnostic.hint)]

end Diagnostic

end Headfirst
