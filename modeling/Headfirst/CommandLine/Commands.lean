import Headfirst.CommandLine.Console
import Headfirst.CommandLine.Help
import Headfirst.Fragment.Source
import Headfirst.Text.Lines
import Headfirst.Text.Utf8
import Headfirst.Tree.Outline

namespace Headfirst.CommandLine

/-! What the commands do, as requests to their surroundings. -/

namespace Source

def ofPath (path : String) : Source :=
  if path = "-" then .standardInput else .file path

def name : Source → String
  | standardInput => "<stdin>"
  | file path => path

/-- The error for an input that cannot be read, unless the reason is out of the ordinary. -/
def readError? (source : Source) : FileFault → Option String
  | .notFound => some s!"input file not found: {source.name}"
  | .noPermission => some s!"cannot read input file: {source.name}"
  | .invalidPath => some (FileFault.invalidPath.text source.name)
  | _ => none

def decodeError (source : Source) (fault : Text.Utf8.Fault) : String :=
  match source with
  | standardInput => s!"standard input is not valid UTF-8 ({fault.text})"
  | file path => s!"input file is not valid UTF-8: {path} ({fault.text})"

/-- The text that the bytes of a source stand for, with line feeds for line breaks. -/
def decode (bytes : List UInt8) : Except Text.Utf8.Fault String :=
  match Text.Utf8.decode bytes with
  | .error fault => .error fault
  | .ok chars => .ok (String.ofList (Text.unifyBreaks chars))

end Source

/-- What becomes of a source: the fragment, unless there is an error, what happens on the
way, and the diagnostics, a warning for every tolerated occurrence among them.  A crash is no
diagnostic. -/
structure Treatment where
  result : Option Fragment
  events : List Event
  diagnostics : List Diagnostic
  crash : Option String := none

namespace Options

/-- Reads a source and fronts the constructs in it, or those in the invocations of the
macro.  Warnings of a fragment that fails are dropped in favour of its error. -/
def treat (options : Options) (source file : String) : Treatment :=
  match Fragment.read source file with
  | .error failure =>
      { result := none, events := [], diagnostics := [Fragment.failureIn source failure] }
  | .ok fragment =>
      let start := Event.read file fragment.children.length
      if options.whole then
        let run := fragment.front options.settings
        let events := start :: run.events
        match run.result with
        | .error failure =>
            { result := none, events, diagnostics := [Fragment.failureIn source failure] }
        | .ok result =>
            { result, events, diagnostics := run.tolerated.map (Fragment.warningIn source) }
      else
        let (result, halt, tally) := fragment.expand options.settings ""
        let events := start :: tally.events.reverse
        let warnings := tally.tolerated.map (Fragment.warningIn source)
        match halt with
        | some (.refused failure) =>
            let diagnostics := warnings ++ [Fragment.failureIn source failure]
            { result := none, events, diagnostics }
        | some .overflow =>
            { result := none, events, diagnostics := [], crash := Stack.overflow }
        | none => { result, events, diagnostics := warnings }

def withInput (options : Options) (console : Console) (next : String → String → Action) :
    Action :=
  let source := Source.ofPath options.input
  .read source fun
    | .error fault =>
        match source.readError? fault with
        | some message => (console.addErrors [message]).reject
        | none => console.giveUp (fault.text source.name)
    | .ok bytes =>
        match Source.decode bytes with
        | .error fault => (console.addErrors [source.decodeError fault]).reject
        | .ok text => next text source.name

/-- Goes on with the fragment that the input is made into, and the diagnostics reported
on the way.  With unsound settings the input is not taken apart. -/
def withResult (options : Options) (palette : Palette)
    (next : Console → (source file : String) → Fragment → Action) : Action :=
  let console := Console.start options palette
  options.withInput console fun source file =>
    match options.blankFault?, options.settings.problems with
    | some fault, _ => console.giveUp fault
    | none, problem :: problems => (console.addErrors (problem :: problems)).reject
    | none, [] =>
        let treatment := options.treat source file
        let console := (console.log treatment.events).addDiagnostics treatment.diagnostics
        match treatment.crash, treatment.result with
        | some fault, _ => console.giveUp fault
        | none, none => console.reject
        | none, some result => next console source file result

def outputFile? (options : Options) : Option String :=
  options.output.toOption.filter fun path => path ≠ "" && path ≠ "-"

def deliver (options : Options) (console : Console) (output : String) : Action :=
  match options.outputFile? with
  | none => console.close .success output
  | some path =>
      .write path output fun
        | none => console.close .success ""
        | some .invalidPath => console.giveUp (FileFault.invalidPath.text path)
        | some fault =>
            (console.addErrors [s!"cannot write output: {fault.text path}"]).reject

def front (options : Options) (palette : Palette) : Action :=
  options.withResult palette fun console _ _ result => options.deliver console result.tree.render

def resolved (before after : Fragment) : Int :=
  before.tree.markers - after.tree.markers

def resolvedLine (palette : Palette) (file : String) (count : Int) : String :=
  s!"{palette.green}ok{palette.reset} {palette.bold}{file}{palette.reset}: " ++
    s!"{count} occurrence(s) resolved.\n"

def tellsResolved (options : Options) : Bool :=
  !options.quiet && (options.style = .absent || options.style = .value .lines)

/-- Counts the markers in the input by reading it once more. -/
def check (options : Options) (palette : Palette) : Action :=
  options.withResult palette fun console source file result =>
    match Fragment.read source file with
    | .error failure => (console.addDiagnostics [Fragment.failureIn source failure]).reject
    | .ok before =>
        let console := console.log [.read file before.children.length]
        let line :=
          if options.tellsResolved then resolvedLine palette file (resolved before result) else ""
        (console.write line).close .success ""

/-- Shows the trees of the input.  There is no closing of the report after a success. -/
def tokens (options : Options) (palette : Palette) : Action :=
  let console := Console.start options palette
  options.withInput console fun source file =>
    match Fragment.read source file with
    | .error failure => (console.addDiagnostics [Fragment.failureIn source failure]).reject
    | .ok fragment =>
        let console := console.log [.read file fragment.children.length]
        let shown :=
          if options.compact then fragment.tree.compact
          else fragment.tree.outline 0 options.locations
        .finish ⟨.success, shown ++ "\n", console.written⟩

end Options

def Invocation.action (invocation : Invocation) (palette : Palette) : Action :=
  match invocation.command with
  | .front => invocation.options.front palette
  | .check => invocation.options.check palette
  | .tokens => invocation.options.tokens palette

def Stop.ending : Stop → Ending
  | help about => { status := .success, stdout := helpText about }
  | version => { status := .success, stdout := versionText }
  | usage program message => { status := .broken, stderr := s!"{program}: error: {message}\n" }

/-- Everything the program does for a command line.  Without a command it shows the
overview. -/
def action (palette : Palette) (arguments : List String) : Action :=
  match parse arguments with
  | .error stop => .finish stop.ending
  | .ok none => .finish (Stop.help none).ending
  | .ok (some invocation) => invocation.action palette

end Headfirst.CommandLine
