import Headfirst.CommandLine.Action
import Headfirst.CommandLine.Log
import Headfirst.CommandLine.Options

namespace Headfirst.CommandLine

/-! What a command tells the user beside its result. -/

/-- Standard error as a command fills it: the diagnostics reported there, and everything
written so far, log lines among them. -/
structure Console where
  report : Report
  threshold : Level
  written : String := ""

namespace Console

def start (options : Options) (palette : Palette) : Console where
  report := { style := options.reportStyle, palette }
  threshold := .threshold options.quiet options.verbose

def palette (console : Console) : Palette :=
  console.report.palette

def write (console : Console) (text : String) : Console :=
  { console with written := console.written ++ text }

def log (console : Console) (events : List Event) : Console :=
  console.write (CommandLine.log console.threshold events)

def addErrors (console : Console) (messages : List String) : Console :=
  let (report, text) := console.report.addErrors messages
  { console with report }.write text

def addDiagnostics (console : Console) (diagnostics : List Diagnostic) : Console :=
  let (report, text) := console.report.addDiagnostics diagnostics
  { console with report }.write text

def close (console : Console) (status : Status) (stdout : String) : Action :=
  .finish ⟨status, stdout, console.written ++ console.report.closing⟩

def reject (console : Console) : Action :=
  console.close .rejected ""

/-- Ends a command at a fault that is nobody's mistake.  What the report still holds back
is lost. -/
def giveUp (console : Console) (fault : String) : Action :=
  let palette := console.palette
  let headline :=
    palette.red ++ palette.bold ++ "Internal error:" ++ palette.reset ++ " " ++ fault
  let advice :=
    palette.dim ++ "This is a bug in sonic-spin. Please report it." ++ palette.reset
  .finish ⟨.broken, "", console.written ++ "\n" ++ headline ++ "\n" ++ advice ++ "\n\n"⟩

end Console

end Headfirst.CommandLine
