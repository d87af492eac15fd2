import Headfirst.Fronting.Event
import Headfirst.Tree.Print

namespace Headfirst.CommandLine

/-! The log: events as lines on standard error, from a chosen level on. -/

inductive Level where
  | debug
  | info
  | warning
  | error
deriving DecidableEq, Repr

namespace Level

def name : Level → String
  | debug => "DEBUG"
  | info => "INFO"
  | warning => "WARNING"
  | error => "ERROR"

def rank : Level → Nat
  | debug => 0
  | info => 1
  | warning => 2
  | error => 3

def threshold (quiet : Bool) (verbose : Nat) : Level :=
  if quiet then error
  else
    match verbose with
    | 0 => warning
    | 1 => info
    | _ => debug

end Level

def level : Event → Level
  | .finished .. | .expansionDone .. => .info
  | .tolerated _ => .warning
  | _ => .debug

def part : Event → String
  | .read .. => "lexer"
  | .operandFound .. => "operand"
  | .headParsed .. => "constructs"
  | .chainTaken _ => "body"
  | .expanded .. | .expansionDone .. => "api"
  | .started _ | .spliced .. | .tolerated _ | .passDone .. | .finished .. | .failed _ => "driver"

def account : Event → String
  | .read file trees => s!"tokenized {file}: {trees} top-level trees"
  | .started markers => s!"starting rewrite: {markers} markers"
  | .operandFound marker start =>
      s!"operand for marker at {marker} spans [{start}, {marker}): {marker - start} trees"
  | .headParsed word construct =>
      s!"classified construct head {Text.quoted word} as {construct.name}"
  | .chainTaken trees => s!"absorbed else chain of {trees} trees"
  | .spliced occurrence replacement =>
      s!"{occurrence.head.construct.name}: {replacement.compact}"
  | .tolerated failure => s!"leaving malformed occurrence untouched: {failure.fault.message}"
  | .passDone pass splices => s!"pass {pass}: {splices} rewrites"
  | .finished splices passes tolerated =>
      s!"rewrote {splices} occurrences in {passes} passes ({tolerated} tolerated)"
  | .failed failure => s!"rewrite failed: {failure.fault.message}"
  | .expanded macroName loc => s!"expanded {macroName}! at {loc.text}"
  | .expansionDone invocations macroName => s!"expanded {invocations} {macroName}! invocations"

def logLine (event : Event) : String :=
  s!"{(level event).name}: sonic_spin.{part event}: {account event}\n"

def log (threshold : Level) (events : List Event) : String :=
  String.join <| (events.filter fun event => threshold.rank ≤ (level event).rank).map logLine

end Headfirst.CommandLine
