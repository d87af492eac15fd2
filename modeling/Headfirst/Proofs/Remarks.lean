import Headfirst.Proofs.JsonText
import Headfirst.Proofs.Treatments

namespace Headfirst

/-! What a command reports as records.

The report is held back until the command ends, and is then one array with a record for each
remark.  The log is not: it names what is tolerated when it comes up, in front of the array. -/

/-- The failures among events, as the events that tell of them. -/
theorem Event.filter_isTolerated_eq (events : List Event) :
    events.filter isTolerated = (events.filterMap tolerated?).map .tolerated := by
  induction events with
  | nil => rfl
  | cons event events ih =>
      cases event with
      | tolerated failure => exact congrArg _ ih
      | _ => exact ih

/-- A report that holds its records back has taken in some more, and has written nothing. -/
def Report.Gains (before : Report) (records : List Json) (after : Report × String) : Prop :=
  after.1.style = .records ∧ after.1.records = before.records ++ records ∧ after.2 = ""

namespace Report

variable {report : Report}

theorem addDiagnostic_gains (style : report.style = .records) (diagnostic : Diagnostic) :
    report.Gains [diagnostic.record] (report.addDiagnostic diagnostic) := by
  unfold addDiagnostic
  split <;> simp [style, Gains]

theorem addDiagnostics_gains (style : report.style = .records) (diagnostics : List Diagnostic) :
    report.Gains (diagnostics.map Diagnostic.record) (report.addDiagnostics diagnostics) := by
  induction diagnostics generalizing report with
  | nil => simp [addDiagnostics, style, Gains]
  | cons diagnostic diagnostics ih =>
      obtain ⟨still, records, silent⟩ := addDiagnostic_gains style diagnostic
      obtain ⟨style', records', silent'⟩ := ih still
      simp [addDiagnostics, style', records, records', silent, silent', Gains]

theorem addErrors_gains (style : report.style = .records) (messages : List String) :
    report.Gains (messages.map fun message => .obj [("severity", .str "error"),
      ("message", .str message)]) (report.addErrors messages) := by
  induction messages generalizing report with
  | nil => simp [addErrors, style, Gains]
  | cons message messages ih =>
      have first : report.Gains [.obj [("severity", .str "error"), ("message", .str message)]]
          (report.addError message) := by
        simp [addError, style, Gains]
      obtain ⟨still, records, silent⟩ := first
      obtain ⟨style', records', silent'⟩ := ih still
      simp [addErrors, style', records, records', silent, silent', Gains]

end Report

namespace CommandLine

/-- Something that a command reports: a problem in the source, or one of the command's own. -/
inductive Remark where
  | diagnostic (diagnostic : Diagnostic)
  | message (message : String)

def Remark.record : Remark → Json
  | diagnostic problem => problem.record
  | message text => .obj [("severity", .str "error"), ("message", .str text)]

/-- What a command tells of: the failures that it tolerates, and what it reports. -/
structure Account where
  tolerated : List Failure := []
  remarks : List Remark := []

namespace Account

/-- The lines of the log, which is silent if it is kept quiet. -/
def warnings (account : Account) (quiet : Bool) : String :=
  if quiet then "" else String.join (account.tolerated.map fun failure => logLine (.tolerated failure))

def document (account : Account) : Json :=
  .arr (account.remarks.map Remark.record)

def text (account : Account) (quiet : Bool) : String :=
  account.warnings quiet ++ (account.document.pretty 0 ++ "\n")

def addTolerated (account : Account) (failures : List Failure) : Account :=
  { account with tolerated := account.tolerated ++ failures }

def addRemarks (account : Account) (remarks : List Remark) : Account :=
  { account with remarks := account.remarks ++ remarks }

/-- A log that is silent leaves a document, and a line of the log leaves none. -/
theorem denotes_text_iff (account : Account) (quiet : Bool) (value : Json) :
    Json.Denotes (account.text quiet) value ↔
      (quiet = true ∨ account.tolerated = []) ∧ value = account.document := by
  by_cases silent : quiet = true ∨ account.tolerated = []
  · have none : account.warnings quiet = "" := by
      unfold warnings
      rcases silent with rfl | none
      · rfl
      · simp [none]
    rw [text, none, String.empty_append, Json.denotes_pretty_iff]
    simp [silent]
  · simp only [silent, false_and, iff_false]
    intro denotes
    rw [not_or, Bool.not_eq_true] at silent
    obtain ⟨failure, others, told⟩ := List.exists_cons_of_ne_nil silent.2
    have first : (account.text quiet).toList.head? = some 'W' := by
      have line : (logLine (.tolerated failure)).toList.head? = some 'W' := by
        simp [logLine, level, Level.name, toString]
      simp [text, warnings, silent.1, told, String.join_cons, List.head?_append, line]
    have start := denotes.starts 'W' first
    revert start
    decide

end Account

namespace Console

/-- A console that has written the log of an account, and holds back the rest. -/
structure Collects (console : Console) (quiet : Bool) (account : Account) : Prop where
  style : console.report.style = .records
  threshold : console.threshold = .threshold quiet 0
  records : console.report.records = account.remarks.map Remark.record
  written : console.written = account.warnings quiet

variable {console : Console} {quiet : Bool} {account : Account} {workspace : Workspace}

theorem start_collects {options : Options} (palette : Palette)
    (records : options.reportStyle = .records) (still : options.verbose = 0) :
    (start options palette).Collects options.quiet {} where
  style := records
  threshold := congrArg (Level.threshold options.quiet) still
  records := rfl
  written := by cases options.quiet <;> rfl

theorem Collects.log (collects : console.Collects quiet account) (events : List Event) :
    (console.log events).Collects quiet
      (account.addTolerated (events.filterMap Event.tolerated?)) where
  style := collects.style
  threshold := collects.threshold
  records := collects.records
  written := by
    have line : (events.filter Event.isTolerated).map logLine =
        (events.filterMap Event.tolerated?).map fun failure => logLine (.tolerated failure) := by
      rw [Event.filter_isTolerated_eq, List.map_map]
      rfl
    simp only [Console.log, write, collects.written, collects.threshold, log_still, line,
      Account.warnings, Account.addTolerated]
    cases quiet <;> simp [String.join_append]

theorem Collects.takeIn (collects : console.Collects quiet account) {remarks : List Remark}
    {after : Report × String} (gains : console.report.Gains (remarks.map Remark.record) after) :
    ({ console with report := after.1 }.write after.2).Collects quiet
      (account.addRemarks remarks) := by
  obtain ⟨style, records, silent⟩ := gains
  refine ⟨style, collects.threshold, ?_, ?_⟩
  · simp only [write, records, collects.records, Account.addRemarks, List.map_append]
  · simp only [write, silent, String.append_empty]
    exact collects.written

theorem Collects.addDiagnostics (collects : console.Collects quiet account)
    (diagnostics : List Diagnostic) :
    (console.addDiagnostics diagnostics).Collects quiet
      (account.addRemarks (diagnostics.map .diagnostic)) := by
  have gains := Report.addDiagnostics_gains collects.style diagnostics
  refine collects.takeIn ?_
  rw [List.map_map]
  exact gains

theorem Collects.addErrors (collects : console.Collects quiet account) (messages : List String) :
    (console.addErrors messages).Collects quiet (account.addRemarks (messages.map .message)) := by
  have gains := Report.addErrors_gains collects.style messages
  refine collects.takeIn ?_
  rw [List.map_map]
  exact gains

/-- At the end the report is written, as one document. -/
theorem Collects.close (collects : console.Collects quiet account) (status : Status)
    (stdout : String) :
    ((console.close status stdout).run workspace).1.stderr = account.text quiet := by
  rw [run_close]
  simp only [Report.closing, collects.style, collects.records, collects.written]
  rfl

end Console

namespace Options

/-- Why the result of a command cannot be delivered. -/
def undelivered (options : Options) (command : Command) (workspace : Workspace) (output : String) :
    List String :=
  match command, options.outputFile? with
  | .front, some path =>
      match workspace.writeFile path output with
      | .ok _ => []
      | .error fault => [s!"cannot write output: {fault.text path}"]
  | _, _ => []

/-- What a text that is treated gives to tell. -/
def treatedAccount (options : Options) (text : String) : Account :=
  let treatment := options.treat text options.file
  ⟨treatment.events.filterMap Event.tolerated?, treatment.diagnostics.map .diagnostic⟩

/-- What a command has to tell of its workspace: that there is no text, that the settings are
unsound, or what comes up when the text is treated and the result delivered. -/
def account (options : Options) (command : Command) (workspace : Workspace) : Account :=
  let source := Source.ofPath options.input
  match workspace.given source with
  | .error fault => ⟨[], (source.readError? fault).toList.map .message⟩
  | .ok bytes =>
      match Source.decode bytes, options.settings.problems with
      | .error fault, _ => ⟨[], [.message (source.decodeError fault)]⟩
      | .ok _, problem :: problems => ⟨[], (problem :: problems).map .message⟩
      | .ok text, [] =>
          match (options.treat text options.file).result with
          | none => options.treatedAccount text
          | some result =>
              (options.treatedAccount text).addRemarks
                ((options.undelivered command workspace result.tree.render).map .message)

variable {options : Options} {palette : Palette} {workspace : Workspace} {console : Console}
  {account : Account}

/-- A session that tells what an account says, unless it breaks. -/
def Tells (options : Options) (account : Account) (session : Ending × Workspace) : Prop :=
  session.1.status ≠ .broken → session.1.stderr = account.text options.quiet

theorem tells_close (collects : console.Collects options.quiet account) (status : Status)
    (stdout : String) : options.Tells account ((console.close status stdout).run workspace) :=
  fun _ => collects.close status stdout

theorem tells_giveUp (fault : String) :
    options.Tells account ((console.giveUp fault).run workspace) :=
  fun sound => absurd rfl sound

theorem tells_deliver (collects : console.Collects options.quiet account) (output : String) :
    options.Tells (account.addRemarks ((options.undelivered .front workspace output).map .message))
      ((options.deliver console output).run workspace) := by
  have unchanged : account.addRemarks [] = account := by simp [Account.addRemarks]
  unfold deliver undelivered
  cases named : options.outputFile? with
  | none =>
      rw [List.map_nil, unchanged]
      exact tells_close collects .success output
  | some path =>
      simp only [Action.run]
      cases written : workspace.writeFile path output with
      | ok after =>
          simp only [List.map_nil, unchanged]
          exact tells_close collects .success ""
      | error fault =>
          cases fault with
          | invalidPath => exact tells_giveUp _
          | _ => exact tells_close (collects.addErrors _) .rejected ""

theorem tells_withResult {command : Command} (records : options.reportStyle = .records)
    (still : options.verbose = 0) {next : Console → String → String → Fragment → Action}
    (onward : ∀ console text result, (options.treat text options.file).result = some result →
      console.Collects options.quiet (options.treatedAccount text) →
      options.Tells ((options.treatedAccount text).addRemarks
          ((options.undelivered command workspace result.tree.render).map .message))
        ((next console text options.file result).run workspace)) :
    options.Tells (options.account command workspace)
      ((options.withResult palette next).run workspace) := by
  have start := Console.start_collects palette records still
  rw [withResult, withInput, Action.run_read]
  cases given : workspace.given (Source.ofPath options.input) with
  | error fault =>
      cases named : (Source.ofPath options.input).readError? fault with
      | none =>
          simp only [named]
          exact tells_giveUp _
      | some message =>
          simp only [account, given, named]
          exact tells_close (start.addErrors [message]) .rejected ""
  | ok bytes =>
      cases decoded : Source.decode bytes with
      | error fault =>
          simp only [account, given, decoded]
          exact tells_close (start.addErrors _) .rejected ""
      | ok text =>
          cases blank : options.blankFault? with
          | some fault =>
              simp only [decoded]
              exact tells_giveUp fault
          | none =>
              cases unsound : options.settings.problems with
              | cons problem problems =>
                  simp only [account, given, decoded, unsound]
                  exact tells_close (start.addErrors (problem :: problems)) .rejected ""
              | nil =>
                  have collects : (options.treated palette text).Collects options.quiet
                      (options.treatedAccount text) :=
                    (start.log _).addDiagnostics _
                  cases made : (options.treat text options.file).result with
                  | none =>
                      simp only [file] at made collects
                      simp only [account, given, decoded, unsound, crash_treat, file, made]
                      exact tells_close collects .rejected ""
                  | some result =>
                      have tells := onward _ text result made collects
                      simp only [file] at made tells
                      simp only [account, given, decoded, unsound, crash_treat, file, made]
                      exact tells

theorem tells_front (records : options.reportStyle = .records) (still : options.verbose = 0) :
    options.Tells (options.account .front workspace) ((options.front palette).run workspace) :=
  tells_withResult records still fun _ _ _ _ collects => tells_deliver collects _

/-- The line that counts what was resolved is for readers, and has no place among records. -/
theorem tells_check (records : options.reportStyle = .records) (still : options.verbose = 0) :
    options.Tells (options.account .check workspace) ((options.check palette).run workspace) := by
  refine tells_withResult records still fun console text result made collects => ?_
  obtain ⟨fragment, lexed⟩ := exists_read_of_treat made
  have silent : options.tellsResolved = false := by
    unfold tellsResolved
    unfold reportStyle at records
    cases style : options.style with
    | value style => simp_all [Given.toOption]
    | _ => simp_all [Given.toOption]
  have again := collects.log [.read options.file fragment.children.length]
  have told : (options.treatedAccount text).addTolerated
      ([Event.read options.file fragment.children.length].filterMap Event.tolerated?) =
        (options.treatedAccount text).addRemarks [] := by
    simp [Account.addTolerated, Account.addRemarks, Event.tolerated?]
  rw [told] at again
  simp only [lexed, silent, Bool.false_eq_true, if_false, Console.write, String.append_empty]
  exact tells_close again .success ""

/-- A strict command has nothing to tell of what it tolerates. -/
theorem account_strict (strict : options.tolerant = false) (command : Command)
    (workspace : Workspace) : (options.account command workspace).tolerated = [] := by
  have none (text : String) : (options.treatedAccount text).tolerated = [] := by
    have quiet := (options.treat_agrees text).strict strict
    rw [Event.filter_isTolerated_eq, List.map_eq_nil_iff] at quiet
    exact quiet
  fun_cases account options command workspace <;> simp_all [Account.addRemarks]

theorem tells_action (palette : Palette) {arguments : List String} {command : Command}
    (parsed : parse arguments = .ok (some ⟨command, options⟩))
    (kind : command = .front ∨ command = .check) (records : options.reportStyle = .records)
    (still : options.verbose = 0) (workspace : Workspace) :
    options.Tells (options.account command workspace)
      ((action palette arguments).run workspace) := by
  unfold action
  rw [parsed]
  rcases kind with rfl | rfl
  · exact tells_front records still
  · exact tells_check records still

/-- With records asked for, and no more of the log, standard error of a command that does not break
is the log of what was tolerated, and then one array with a record for each remark.  It stands for
that array, and for no other document, if the log is silent: if it is kept quiet, or if nothing
was tolerated, as in a strict command.  Otherwise it stands for no document. -/
theorem stderr_denotes_iff (palette : Palette) {arguments : List String} {command : Command}
    (parsed : parse arguments = .ok (some ⟨command, options⟩))
    (kind : command = .front ∨ command = .check) (records : options.reportStyle = .records)
    (still : options.verbose = 0) (workspace : Workspace) :
    let ending := ((action palette arguments).run workspace).1
    let account := options.account command workspace
    (ending.status ≠ .broken → ending.stderr = account.text options.quiet ∧
      ∀ value, Json.Denotes ending.stderr value ↔
        (options.quiet = true ∨ account.tolerated = []) ∧
          value = .arr (account.remarks.map Remark.record)) ∧
    (options.tolerant = false → account.tolerated = []) := by
  intro ending account
  refine ⟨fun sound => ?_, fun strict => account_strict strict command workspace⟩
  have spelled : ending.stderr = account.text options.quiet :=
    tells_action palette parsed kind records still workspace sound
  refine ⟨spelled, fun value => ?_⟩
  rw [spelled]
  exact account.denotes_text_iff options.quiet value

/-- A command that is kept quiet, on a text with one occurrence that is tolerated. -/
theorem stderr_denotes_quiet :
    let arguments := ["check", "-q", "--whole", "--diagnostics", "json", "--tolerate-malformed", "-"]
    let workspace : Workspace := ⟨"x::(frob) \x7b\x7d".toUTF8.toList, []⟩
    let ending := ((action ⟨false⟩ arguments).run workspace).1
    ∃ options, parse arguments = .ok (some ⟨.check, options⟩) ∧ options.reportStyle = .records ∧
      options.verbose = 0 ∧ ending.status = .success ∧
      (options.account .check workspace).tolerated.length = 1 ∧
      (options.account .check workspace).remarks.length = 1 ∧
      Json.Denotes ending.stderr (.arr ((options.account .check workspace).remarks.map Remark.record)) := by
  intro arguments workspace ending
  have run : (parse arguments).toOption.any fun invocation => invocation.any fun invocation =>
      invocation.command == .check && invocation.options.reportStyle == .records &&
        invocation.options.verbose == 0 && invocation.options.quiet &&
        ending.status == .success &&
        (invocation.options.account .check workspace).tolerated.length == 1 &&
        (invocation.options.account .check workspace).remarks.length == 1 := by
    decide +kernel
  obtain ⟨value, parsed, run⟩ := exists_ok_of_any run
  rw [Option.any_eq_true] at run
  obtain ⟨⟨command, options⟩, rfl, run⟩ := run
  simp only [Bool.and_eq_true, beq_iff_eq] at run
  obtain ⟨⟨⟨⟨⟨⟨rfl, records⟩, still⟩, quiet⟩, success⟩, tolerated⟩, remarks⟩ := run
  obtain ⟨told, -⟩ := stderr_denotes_iff ⟨false⟩ parsed (.inr rfl) records still workspace
  have sound : ending.status ≠ .broken := by simp [success]
  obtain ⟨-, denotes⟩ := told sound
  exact ⟨options, parsed, records, still, success, tolerated, remarks,
    (denotes _).mpr ⟨.inl quiet, rfl⟩⟩

/-- On the same text a command that is not kept quiet succeeds, and its report stands for no
document. -/
theorem stderr_not_denotes :
    let ending := ((action ⟨false⟩
      ["rewrite", "--whole", "--diagnostics", "json", "--tolerate-malformed", "-"]).run
        ⟨"x::(frob) \x7b\x7d".toUTF8.toList, []⟩).1
    ending.status = .success ∧ ∀ value, ¬ Json.Denotes ending.stderr value := by
  intro ending
  let workspace : Workspace := ⟨"x::(frob) \x7b\x7d".toUTF8.toList, []⟩
  have run : (parse ["rewrite", "--whole", "--diagnostics", "json", "--tolerate-malformed",
      "-"]).toOption.any fun invocation => invocation.any fun invocation =>
        invocation.command == .front && invocation.options.reportStyle == .records &&
          invocation.options.verbose == 0 && !invocation.options.quiet &&
          ending.status == .success &&
          (invocation.options.account .front workspace).tolerated.length == 1 := by
    decide +kernel
  obtain ⟨value, parsed, run⟩ := exists_ok_of_any run
  rw [Option.any_eq_true] at run
  obtain ⟨⟨command, options⟩, rfl, run⟩ := run
  simp only [Bool.and_eq_true, beq_iff_eq, Bool.not_eq_true'] at run
  obtain ⟨⟨⟨⟨⟨rfl, records⟩, still⟩, loud⟩, success⟩, tolerated⟩ := run
  have sound : ending.status ≠ .broken := by simp [success]
  have spelled : ending.stderr = (options.account .front workspace).text options.quiet :=
    tells_action ⟨false⟩ parsed (.inl rfl) records still workspace sound
  refine ⟨success, fun value denotes => ?_⟩
  rw [spelled, Account.denotes_text_iff, loud] at denotes
  rcases denotes.1 with quiet | none
  · contradiction
  · rw [none] at tolerated
    contradiction

end Options

end CommandLine

end Headfirst
