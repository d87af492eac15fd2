import Headfirst.CommandLine.Commands
import Headfirst.Proofs.Accounts

namespace Headfirst.CommandLine

/-! A command carried out over a workspace, stage by stage: it takes its input, treats it as the
library does, and delivers the result.

What can stop a command comes before anything is written, so a workspace is either left as it was
or has the whole output in one file. -/

namespace Workspace

/-- What a source of input gives in a workspace. -/
def given (workspace : Workspace) : Source → Except FileFault (List UInt8)
  | .standardInput => .ok workspace.stdin
  | .file path => workspace.readFile path

/-- A source of input that is a text. -/
def Holds (workspace : Workspace) (source : Source) (text : String) : Prop :=
  ∃ bytes, workspace.given source = .ok bytes ∧ Source.decode bytes = .ok text

variable {workspace after : Workspace} {path content : String}

theorem exists_of_writeFile (written : workspace.writeFile path content = .ok after) :
    ∃ name, Place.ofPath path = .ok (.entry name false) ∧ name.utf8ByteSize ≤ Place.maxName ∧
      after = workspace.put name content := by
  unfold writeFile at written
  split at written
  · contradiction
  · contradiction
  · contradiction
  · contradiction
  · rename_i name found
    split at written
    · contradiction
    · rename_i short
      refine ⟨name, found, ?_, (Except.ok.inj written).symm⟩
      refine Nat.not_lt.mp fun long => short ?_
      rw [entry, if_pos long]

theorem contents?_put_self (workspace : Workspace) (name content : String) :
    (workspace.put name content).contents? name = some content.toUTF8.toList := by
  have others : (workspace.files.filter (·.1 != name)).find? (·.1 == name) = none := by
    rw [List.find?_eq_none]
    intro file member
    simpa using (List.mem_filter.mp member).2
  rw [contents?, put, List.find?_append, others]
  simp

theorem contents?_put_of_ne {name other : String} (ne : other ≠ name) :
    (workspace.put name content).contents? other = workspace.contents? other := by
  have kept : (workspace.files.filter (·.1 != name)).find? (·.1 == other) =
      workspace.files.find? (·.1 == other) := by
    induction workspace.files with
    | nil => rfl
    | cons file files ih =>
        by_cases here : file.1 = other
        · simp [here, ne]
        · rw [List.filter_cons]
          split <;> simp [here, ih]
  rw [contents?, contents?, put, List.find?_append, kept]
  simp [Ne.symm ne]

/-- A file that is written holds just what was written, and no other file changes. -/
theorem writeFile_exact (written : workspace.writeFile path content = .ok after) :
    after.readFile path = .ok content.toUTF8.toList ∧ after.stdin = workspace.stdin ∧
      ∀ other, Place.ofPath path ≠ .ok (.entry other false) →
        after.contents? other = workspace.contents? other := by
  obtain ⟨name, found, short, rfl⟩ := exists_of_writeFile written
  refine ⟨?_, rfl, fun other elsewhere => contents?_put_of_ne ?_⟩
  · simp only [readFile, found]
    rw [entry, if_neg (Nat.not_lt.mpr short), contents?_put_self]
  · rintro rfl
    exact elsewhere found

end Workspace

theorem Action.run_read (workspace : Workspace) (source : Source)
    (next : Except FileFault (List UInt8) → Action) :
    (Action.read source next).run workspace = (next (workspace.given source)).run workspace := by
  cases source <;> rfl

namespace Console

variable (console : Console) (workspace : Workspace)

theorem run_close (status : Status) (stdout : String) :
    (console.close status stdout).run workspace =
      (⟨status, stdout, console.written ++ console.report.closing⟩, workspace) := rfl

theorem run_reject :
    console.reject.run workspace =
      (⟨.rejected, "", console.written ++ console.report.closing⟩, workspace) := rfl

end Console

namespace Options

/-- Options from which settings can be made, and sound ones. -/
structure Valid (options : Options) : Prop where
  complete : options.blankFault? = none
  sound : options.settings.problems = []

/-- The name under which the input is known. -/
def file (options : Options) : String :=
  (Source.ofPath options.input).name

/-- What the library makes of a source with the settings that the options ask for. -/
def library (options : Options) (source : String) : Except (Halt Diagnostic) String :=
  if options.whole then
    (Fragment.frontSource options.settings source options.file).mapError .refused
  else
    Fragment.expandSource options.settings (options.macroName.toOption.getD "") source options.file

/-- The console after the input has been treated. -/
def treated (options : Options) (palette : Palette) (source : String) : Console :=
  let treatment := options.treat source options.file
  ((Console.start options palette).log treatment.events).addDiagnostics treatment.diagnostics

variable {options : Options} {palette : Palette} {workspace : Workspace} {text : String}

/-- What can be read is not nested so deeply that its treatment crashes. -/
theorem crash_treat (options : Options) (text file : String) :
    (options.treat text file).crash = none := by
  unfold treat
  cases lexed : Fragment.read text file with
  | error failure => rfl
  | ok fragment =>
      have enough := Fragment.ample_of_read lexed
      have sound := Fragment.expand_ne_overflow options.settings "" enough
      cases whole : options.whole with
      | true =>
          simp only [if_true]
          split <;> rfl
      | false =>
          simp only [Bool.false_eq_true, if_false]
          split
          · rfl
          · contradiction
          · rfl

theorem run_withInput (holds : workspace.Holds (.ofPath options.input) text) (console : Console)
    (next : String → String → Action) :
    (options.withInput console next).run workspace = (next text options.file).run workspace := by
  obtain ⟨bytes, given, decoded⟩ := holds
  rw [withInput, Action.run_read, given]
  simp only [decoded]
  rfl

/-- With valid options and a text for its input, a command goes on with what the text is made
into. -/
theorem run_withResult (valid : options.Valid)
    (holds : workspace.Holds (.ofPath options.input) text)
    (next : Console → (source file : String) → Fragment → Action) :
    (options.withResult palette next).run workspace =
      (match (options.treat text options.file).result with
        | none => (options.treated palette text).reject
        | some result => next (options.treated palette text) text options.file result).run
          workspace := by
  rw [withResult, run_withInput holds]
  simp only [valid.complete, valid.sound, crash_treat]
  cases made : (options.treat text options.file).result with
  | none => rfl
  | some result => rfl

/-- Where the output of a command goes: to a file if one is named, and then it has to be
written. -/
def Delivers (options : Options) (workspace : Workspace) (output : String) (ending : Ending)
    (after : Workspace) : Prop :=
  match options.outputFile? with
  | none => ending.stdout = output ∧ after = workspace
  | some path => ending.stdout = "" ∧ workspace.writeFile path output = .ok after

/-- The output of a command is delivered as a whole, or the command fails and nothing is. -/
theorem run_deliver (options : Options) (console : Console) (workspace : Workspace)
    (output : String) :
    let session := (options.deliver console output).run workspace
    (session.1.status = .success ∧ options.Delivers workspace output session.1 session.2 ∧
        session.1.stderr = console.written ++ console.report.closing) ∨
      (session.1.status ≠ .success ∧ session.1.stdout = "" ∧ session.2 = workspace ∧
        ∃ path fault, options.outputFile? = some path ∧
          workspace.writeFile path output = .error fault) := by
  intro session
  unfold session deliver Delivers
  cases named : options.outputFile? with
  | none => exact .inl ⟨rfl, ⟨rfl, rfl⟩, rfl⟩
  | some path =>
      rw [Action.run]
      cases written : workspace.writeFile path output with
      | ok after => exact .inl ⟨rfl, ⟨rfl, written⟩, rfl⟩
      | error fault =>
          refine .inr ?_
          cases fault with
          | invalidPath => exact ⟨nofun, rfl, rfl, path, _, rfl, written⟩
          | _ => exact ⟨nofun, rfl, rfl, path, _, rfl, written⟩

end Options

end Headfirst.CommandLine
