import Headfirst.Diagnostic.Record
import Headfirst.Text.Basic

namespace Headfirst

/-! Reports: diagnostics as they are written for a reader or for another program. -/

structure Palette where
  enabled : Bool

namespace Palette

def code (palette : Palette) (number : String) : String :=
  if palette.enabled then "\x1b[" ++ number ++ "m" else ""

def reset (palette : Palette) : String := palette.code "0"
def bold (palette : Palette) : String := palette.code "1"
def dim (palette : Palette) : String := palette.code "2"
def red (palette : Palette) : String := palette.code "31"
def green (palette : Palette) : String := palette.code "32"
def magenta (palette : Palette) : String := palette.code "35"

end Palette

/-- Whether diagnostics are written as lines when they come up, or as one JSON array at
the end. -/
inductive Style where
  | lines
  | records
deriving DecidableEq, Repr

/-- The diagnostics of one command.  Every operation answers with the text it writes. -/
structure Report where
  style : Style
  palette : Palette
  records : List Json := []
  errors : Nat := 0
  warnings : Nat := 0

namespace Report

/-- A diagnostic as coloured lines: the place in bold, what follows it in the colour of
the severity. -/
def colored (palette : Palette) (diagnostic : Diagnostic) : String :=
  let color :=
    if diagnostic.severity = .warning then palette.magenta else palette.red
  let text := diagnostic.text.toList
  let (headline, others) := (Text.cut? ['\n'] text).getD (text, [])
  let (place, message) :=
    match Text.cut? [':', ' '] headline with
    | some (place, message) => (place ++ [':', ' '], message)
    | none => (headline, [])
  palette.bold ++ String.ofList place ++ color ++ String.ofList message ++ palette.reset ++
    "\n" ++ if others.isEmpty then "" else String.ofList others ++ "\n"

def addDiagnostic (report : Report) (diagnostic : Diagnostic) : Report × String :=
  let counted :=
    if diagnostic.severity = .warning then { report with warnings := report.warnings + 1 }
    else { report with errors := report.errors + 1 }
  match report.style with
  | .records => ({ counted with records := report.records ++ [diagnostic.record] }, "")
  | .lines => (counted, colored report.palette diagnostic)

def addError (report : Report) (message : String) : Report × String :=
  let counted := { report with errors := report.errors + 1 }
  match report.style with
  | .records =>
      let record := .obj [("severity", .str "error"), ("message", .str message)]
      ({ counted with records := report.records ++ [record] }, "")
  | .lines =>
      let palette := report.palette
      (counted, palette.bold ++ palette.red ++ "error:" ++ palette.reset ++ " " ++ message ++ "\n")

def addDiagnostics (report : Report) : List Diagnostic → Report × String
  | [] => (report, "")
  | diagnostic :: others =>
      let (report, text) := report.addDiagnostic diagnostic
      let (report, texts) := report.addDiagnostics others
      (report, text ++ texts)

def addErrors (report : Report) : List String → Report × String
  | [] => (report, "")
  | message :: others =>
      let (report, text) := report.addError message
      let (report, texts) := report.addErrors others
      (report, text ++ texts)

/-- What is written at the end: the array of records, or a line that counts errors and
warnings if there are any. -/
def closing (report : Report) : String :=
  match report.style with
  | .records => (Json.arr report.records).pretty 0 ++ "\n"
  | .lines =>
      let palette := report.palette
      let counts :=
        (if report.errors = 0 then []
          else [s!"{palette.red}{report.errors} error(s){palette.reset}"]) ++
        if report.warnings = 0 then []
        else [s!"{palette.magenta}{report.warnings} warning(s){palette.reset}"]
      if counts.isEmpty then "" else ", ".intercalate counts ++ " generated.\n"

end Report

end Headfirst
