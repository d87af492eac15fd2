import Headfirst.CommandLine.Words
import Headfirst.Diagnostic.Report
import Headfirst.Settings

namespace Headfirst.CommandLine

/-! The commands and their options. -/

inductive Command where
  | front
  | check
  | tokens
deriving DecidableEq, Repr

def Command.name : Command → String
  | front => "rewrite"
  | check => "check"
  | tokens => "tokens"

def Command.all : List Command := [.front, .check, .tokens]

inductive OptionName where
  | help
  | version
  | diagnostics
  | verbose
  | quiet
  | maxSplices
  | maxPasses
  | noParens
  | tolerant
  | macroName
  | whole
  | output
  | compact
  | locations
deriving DecidableEq, Repr

/-- An option that takes a value.  Where `--` stands in the place of the value, the option
is given but blank. -/
inductive Given (α : Type) where
  | absent
  | blank
  | value (item : α)
deriving DecidableEq, Repr

namespace Given

variable {α : Type}

def toOption : Given α → Option α
  | absent | blank => none
  | value item => some item

def isAbsent : Given α → Bool
  | absent => true
  | _ => false

end Given

/-- Everything that can be asked for on the command line.  `verbose` counts. -/
structure Options where
  input : String := ""
  style : Given Style := .absent
  verbose : Nat := 0
  quiet : Bool := false
  maxSplices : Given Int := .absent
  maxPasses : Given Int := .absent
  noParens : Bool := false
  tolerant : Bool := false
  macroName : Given String := .absent
  whole : Bool := false
  output : Given String := .absent
  compact : Bool := false
  locations : Bool := false
deriving Repr

namespace Options

/-- Why there are no settings for these options: a limit or the name is blank. -/
def blankFault? (options : Options) : Option String :=
  if options.maxSplices = .blank ∨ options.maxPasses = .blank then
    some "'<=' not supported between instances of 'list' and 'int'"
  else if options.macroName = .blank then
    some "'list' object has no attribute 'isidentifier'"
  else none

def settings (options : Options) : Settings :=
  ({} : Settings).override
    { maxSplices := options.maxSplices.toOption
      maxPasses := options.maxPasses.toOption
      parenthesize := if options.noParens then some false else none
      tolerant := if options.tolerant then some true else none
      macroName := options.macroName.toOption }

def reportStyle (options : Options) : Style :=
  options.style.toOption.getD .lines

end Options

structure Invocation where
  command : Command
  options : Options
deriving Repr

/-- Reasons not to carry out a command: the user asks about the program, or the command
line is not understood. -/
inductive Stop where
  | help (about : Option Command)
  | version
  | usage (program message : String)
deriving DecidableEq, Repr

def program : String := "sonic-spin"

def helpSwitch : Switch OptionName := ⟨.help, ["-h", "--help"], false⟩

def programSwitches : List (Switch OptionName) :=
  [helpSwitch, ⟨.version, ["--version"], false⟩]

def commonSwitches : List (Switch OptionName) :=
  [helpSwitch,
    ⟨.diagnostics, ["--diagnostics"], true⟩,
    ⟨.verbose, ["-v", "--verbose"], false⟩,
    ⟨.quiet, ["-q", "--quiet"], false⟩]

def frontSwitches : List (Switch OptionName) :=
  [⟨.maxSplices, ["--max-rewrites"], true⟩,
    ⟨.maxPasses, ["--max-passes"], true⟩,
    ⟨.noParens, ["--no-parens"], false⟩,
    ⟨.tolerant, ["--tolerate-malformed"], false⟩,
    ⟨.macroName, ["--macro"], true⟩,
    ⟨.whole, ["--whole"], false⟩]

def Command.switches : Command → List (Switch OptionName)
  | front => commonSwitches ++ frontSwitches ++ [⟨.output, ["-o", "--output"], true⟩]
  | check => commonSwitches ++ frontSwitches
  | tokens =>
      commonSwitches ++
        [⟨.compact, ["--compact"], false⟩, ⟨.locations, ["--locations"], false⟩]

def Command.programName (command : Command) : String :=
  program ++ " " ++ command.name

namespace Options

def styleOf? : String → Option Style
  | "gcc" => some .lines
  | "json" => some .records
  | _ => none

/-- The labels of the options that cannot stand beside a given one, if they were given. -/
def conflict? (options : Options) : OptionName → Option String
  | .verbose => if options.quiet then some "-q/--quiet" else none
  | .quiet => if 0 < options.verbose then some "-v/--verbose" else none
  | .macroName => if options.whole then some "--whole" else none
  | .whole => if options.macroName.isAbsent then none else some "--macro"
  | _ => none

def readValue {α : Type} (switch : Switch OptionName) (problem : String)
    (read? : String → Option α) (text : String) : Except String (Given α) :=
  if text = "--" then .ok .blank
  else
    match read? text with
    | some value => .ok (.value value)
    | none => .error s!"argument {switch.label}: {problem}"

def readInt (switch : Switch OptionName) (text : String) : Except String (Given Int) :=
  readValue switch s!"invalid int value: {Text.quoted text}" Text.integer? text

def readStyle (switch : Switch OptionName) (text : String) : Except String (Given Style) :=
  readValue switch s!"invalid choice: {Text.quoted text} (choose from 'gcc', 'json')" styleOf? text

def readText (text : String) : Given String :=
  if text = "--" then .blank else .value text

/-- Takes over one option.  The value is checked before conflicts are. -/
def set (options : Options) (switch : Switch OptionName) (value : String) :
    Except String Options := do
  let changed ←
    match switch.name with
    | .help | .version => .ok options
    | .diagnostics => do pure { options with style := ← readStyle switch value }
    | .verbose => .ok { options with verbose := options.verbose + 1 }
    | .quiet => .ok { options with quiet := true }
    | .maxSplices => do pure { options with maxSplices := ← readInt switch value }
    | .maxPasses => do pure { options with maxPasses := ← readInt switch value }
    | .noParens => .ok { options with noParens := true }
    | .tolerant => .ok { options with tolerant := true }
    | .macroName => .ok { options with macroName := readText value }
    | .whole => .ok { options with whole := true }
    | .output => .ok { options with output := readText value }
    | .compact => .ok { options with compact := true }
    | .locations => .ok { options with locations := true }
  match options.conflict? switch.name with
  | some other => .error s!"argument {switch.label}: not allowed with argument {other}"
  | none => .ok changed

end Options

/-- A command line read so far: the options, whether the input was named, and the words
that belong nowhere. -/
structure Reading where
  options : Options := {}
  named : Bool := false
  extras : List String := []

namespace Reading

def addExtra (reading : Reading) (text : String) : Reading :=
  { reading with extras := reading.extras ++ [text] }

def setInput (reading : Reading) (input : String) : Reading :=
  { reading with options := { reading.options with input }, named := true }

def apply (command : Command) (reading : Reading) :
    List (Setting OptionName) → Except Stop Reading
  | [] => .ok reading
  | (switch, value) :: settings =>
      if switch.name = .help then .error (.help (some command))
      else
        match reading.options.set switch (value.getD "") with
        | .error message => .error (.usage command.programName message)
        | .ok options => apply command { reading with options } settings

/-- Gives the last of some switches the next word as its value, if it needs one. -/
def supply (settings : List (Setting OptionName)) (rest : List (Word OptionName)) :
    Except String (List (Setting OptionName) × List (Word OptionName)) :=
  match settings.getLast? with
  | some (switch, none) =>
      if switch.takesValue then
        match rest with
        | .plain value :: rest => .ok (settings.dropLast ++ [(switch, some value)], rest)
        | _ => .error s!"argument {switch.label}: expected one argument"
      else .ok (settings, rest)
  | _ => .ok (settings, rest)

theorem length_supply {settings result : List (Setting OptionName)}
    {rest after : List (Word OptionName)} (supplied : supply settings rest = .ok (result, after)) :
    after.length ≤ rest.length := by
  unfold supply at supplied
  split at supplied
  · split at supplied
    · split at supplied
      · cases supplied
        simp
      · contradiction
    · cases supplied
      simp
  · cases supplied
    simp

/-- Reads the words after a command.  The first plain word is the input, and a separator
beside it is dropped. -/
def words (command : Command) (reading : Reading) :
    List (Word OptionName) → Except Stop Reading
  | [] => .ok reading
  | .separator :: .plain text :: rest =>
      if reading.named then words command (reading.addExtra "--") (.plain text :: rest)
      else words command (reading.setInput text) rest
  | .separator :: rest => words command (reading.addExtra "--") rest
  | .plain text :: rest =>
      if reading.named then words command (reading.addExtra text) rest
      else
        match rest with
        | .separator :: rest => words command (reading.setInput text) rest
        | rest => words command (reading.setInput text) rest
  | .unknown text :: rest => words command (reading.addExtra text) rest
  | .option found :: rest =>
      match expandOption command.switches found with
      | .error message => .error (.usage command.programName message)
      | .ok settings =>
          match _supplied : supply settings rest with
          | .error message => .error (.usage command.programName message)
          | .ok (settings, rest) =>
              match apply command reading settings with
              | .error stop => .error stop
              | .ok reading => words command reading rest
termination_by rest => rest.length
decreasing_by
  all_goals try
    simp only [List.length_cons]
    omega
  have := length_supply _supplied
  simp only [List.length_cons]
  omega

end Reading

def parseCommand (command : Command) (arguments : List String) :
    Except Stop (Options × List String) :=
  match classifyAll command.switches arguments with
  | .error message => .error (.usage command.programName message)
  | .ok words =>
      match Reading.words command {} words with
      | .error stop => .error stop
      | .ok reading =>
          if reading.named then .ok (reading.options, reading.extras)
          else .error (.usage command.programName "the following arguments are required: input")

def commandOf? (name : String) : Option Command :=
  Command.all.find? (·.name == name)

def wrongCommand (name : String) : Stop :=
  .usage program <|
    s!"argument <command>: invalid choice: {Text.quoted name} (choose from " ++
      ", ".intercalate (Command.all.map fun command => Text.quoted command.name) ++ ")"

/-- Reads the words up to the command, and with them everything after it.  Options of the
program itself end the reading. -/
def parseWords (extras : List String) :
    List (String × Word OptionName) → Except Stop (Option Invocation × List String)
  | [] => .ok (none, extras)
  | (text, .separator) :: rest =>
      if rest.isEmpty then .ok (none, extras ++ [text]) else .error (wrongCommand text)
  | (text, .plain _) :: rest =>
      match commandOf? text with
      | none => .error (wrongCommand text)
      | some command =>
          match parseCommand command (rest.map (·.1)) with
          | .error stop => .error stop
          | .ok (options, others) => .ok (some ⟨command, options⟩, extras ++ others)
  | (text, .unknown _) :: rest => parseWords (extras ++ [text]) rest
  | (_, .option found) :: _ =>
      match expandOption programSwitches found with
      | .error message => .error (.usage program message)
      | .ok _ => .error (if found.switch.name = .version then .version else .help none)

def parse (arguments : List String) : Except Stop (Option Invocation) :=
  match classifyAll programSwitches arguments with
  | .error message => .error (.usage program message)
  | .ok words =>
      match parseWords [] (arguments.zip words) with
      | .error stop => .error stop
      | .ok (invocation, extras) =>
          if extras.isEmpty then .ok invocation
          else .error (.usage program ("unrecognized arguments: " ++ " ".intercalate extras))

end Headfirst.CommandLine
