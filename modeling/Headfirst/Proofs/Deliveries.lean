import Headfirst.Proofs.Culprits
import Headfirst.Proofs.Treatments

namespace Headfirst

/-! The command that rewrites its input, against the library.

Its own steps, from the options to the output and the report, come to what one call of the library
comes to.  A diagnostic is taken apart to be coloured; without colours the parts are the whole. -/

namespace Text

theorem not_mem_of_cut? {mark : Char} {text before after : List Char}
    (found : cut? [mark] text = some (before, after)) : mark ∉ before := by
  fun_induction cut? [mark] text generalizing before after with
  | case1 empty => contradiction
  | case2 => contradiction
  | case3 char rest starts =>
      cases found
      simp
  | case4 char rest other ih =>
      simp only [Option.map_eq_some_iff, Prod.exists, Prod.mk.injEq] at found
      obtain ⟨start, _, inner, rfl, rfl⟩ := found
      have distinct : mark ≠ char := by
        rintro rfl
        simp at other
      rw [List.mem_cons, not_or]
      exact ⟨distinct, ih inner⟩

end Text

namespace Diagnostic

/-- What is shown of a problem below its headline. -/
def details (diagnostic : Diagnostic) : List String :=
  diagnostic.excerpt ++ diagnostic.notes.map Note.text ++
    if diagnostic.hint = "" then [] else ["hint: " ++ diagnostic.hint]

theorem toList_text (diagnostic : Diagnostic) :
    diagnostic.text.toList =
      ['\n'].intercalate ((diagnostic.headline :: diagnostic.details).map String.toList) :=
  String.toList_intercalate

/-- A text that goes on behind its first line does not end there. -/
theorem cut?_text_ne {diagnostic : Diagnostic}
    (nonempty : ∀ line ∈ diagnostic.details.head?, line ≠ "") (first : List Char) :
    Text.cut? ['\n'] diagnostic.text.toList ≠ some (first, []) := by
  intro found
  have whole := Text.cut?_append found
  have unbroken := Text.not_mem_of_cut? found
  rw [List.append_nil, toList_text] at whole
  obtain ⟨front, ended⟩ : ∃ front, diagnostic.headline = front ++ "]" := ⟨_, rfl⟩
  cases lines : diagnostic.details with
  | nil =>
      rw [lines, ended] at whole
      have last := congrArg List.getLast? whole
      simp at last
  | cons line others =>
      rw [lines] at whole nonempty
      have some := nonempty line rfl
      rw [List.map_cons, List.map_cons, List.intercalate_cons_cons] at whole
      generalize tail : ['\n'].intercalate (line.toList :: others.map String.toList) = rest at whole
      -- the first feed is the one behind the headline, or one within it
      have feed : '\n' ∈ first ∨ rest = [] := by
        rcases List.eq_nil_or_concat rest with none | ⟨inner, last, rfl⟩
        · exact .inr none
        · rw [List.concat_eq_append, ← List.append_assoc] at whole
          have same := (List.append_inj' whole rfl).1
          exact .inl (same ▸ by simp)
      rcases feed with member | none
      · exact unbroken member
      · rw [none] at tail
        refine some (String.toList_inj.mp ?_)
        cases others with
        | nil => simpa using tail
        | cons second more =>
            rw [List.map_cons, List.intercalate_cons_cons] at tail
            exact (List.append_eq_nil_iff.mp (List.append_eq_nil_iff.mp tail).1).1

end Diagnostic

namespace Report

variable {palette : Palette} {diagnostic : Diagnostic}

/-- Without colours a diagnostic is written as it is. -/
theorem colored_of_plain (plain : palette.enabled = false)
    (longer : ∀ first, Text.cut? ['\n'] diagnostic.text.toList ≠ some (first, [])) :
    colored palette diagnostic = diagnostic.text ++ "\n" := by
  have code (number : String) : palette.code number = "" := by simp [Palette.code, plain]
  have colors : palette.bold = "" ∧ palette.reset = "" ∧ palette.magenta = "" ∧ palette.red = "" :=
    ⟨code _, code _, code _, code _⟩
  obtain ⟨bold, reset, magenta, red⟩ := colors
  -- the two cuts give the parts of the text back
  have lines : ∃ headline others, (Text.cut? ['\n'] diagnostic.text.toList).getD
        (diagnostic.text.toList, []) = (headline, others) ∧
      headline ++ '\n' :: (if others.isEmpty then [] else others ++ ['\n']) =
        diagnostic.text.toList ++ ['\n'] := by
    cases found : Text.cut? ['\n'] diagnostic.text.toList with
    | none => exact ⟨_, _, rfl, rfl⟩
    | some parts =>
        obtain ⟨first, others⟩ := parts
        have further : others.isEmpty = false := by
          refine Bool.eq_false_iff.mpr fun none => ?_
          rw [List.isEmpty_iff.mp none] at found
          exact longer first found
        refine ⟨first, others, rfl, ?_⟩
        rw [← Text.cut?_append found, further]
        simp
  obtain ⟨headline, others, cut, whole⟩ := lines
  rw [colored, bold, reset, magenta, red, ← String.toList_inj]
  simp only [ite_self, cut]
  have target : (diagnostic.text ++ "\n").toList = diagnostic.text.toList ++ ['\n'] :=
    String.toList_append
  rw [target, ← whole]
  cases placed : Text.cut? [':', ' '] headline with
  | none => cases others <;> simp
  | some parts =>
      obtain ⟨place, message⟩ := parts
      rw [← Text.cut?_append placed]
      cases others <;> simp

end Report

/-- Nothing that is shown below the headline of a failure begins with an empty line. -/
theorem Fragment.details_failureIn (source : String) (failure : Failure) :
    ∀ line ∈ (failureIn source failure).details.head?, line ≠ "" := by
  obtain ⟨sourceLine, shown⟩ := exists_failureIn source failure
  rw [shown, Diagnostic.details, Diagnostic.excerpt]
  by_cases unshown : sourceLine = ""
  · cases marked : failure.marker with
    | some span => simp [unshown, Failure.diagnostic, marked, Note.text]
    | none =>
        by_cases unhinted : failure.fault.hint = ""
        · simp [unshown, Failure.diagnostic, marked, unhinted]
        · simp [unshown, Failure.diagnostic, marked, unhinted]
  · simp [unshown]

namespace CommandLine.Options

variable {options : Options} {palette : Palette} {workspace : Workspace} {text : String}

/-- A strict command that fails writes its diagnostic and a line that counts it. -/
theorem stderr_of_strict {diagnostic : Diagnostic} (strict : options.tolerant = false)
    (lines : options.reportStyle = .lines) (still : options.verbose = 0)
    (plain : palette.enabled = false)
    (failed : options.library text = .error (.refused diagnostic)) :
    (options.treated palette text).written ++ (options.treated palette text).report.closing =
      diagnostic.text ++ "\n" ++ "1 error(s) generated.\n" := by
  have agrees := options.treat_agrees text
  obtain ⟨-, failure, rfl, tolerated, none, diagnostics⟩ := agrees.failed diagnostic failed
  rw [none strict, List.map_nil, List.nil_append] at diagnostics
  have shown := Report.colored_of_plain plain
    (Diagnostic.cut?_text_ne (Fragment.details_failureIn text failure))
  have error : (Fragment.failureIn text failure).severity = .error := by
    obtain ⟨_, same⟩ := Fragment.exists_failureIn text failure
    rw [same]
    rfl
  have colors : palette.red = "" ∧ palette.reset = "" := by
    simp [Palette.red, Palette.reset, Palette.code, plain]
  simp only [treated, start_log_of_strict strict still, diagnostics]
  have one : ({ style := .lines, palette, errors := 1 } : Report).closing =
      "1 error(s) generated.\n" := by
    simp only [Report.closing, colors]
    rfl
  simp only [Console.addDiagnostics, Report.addDiagnostics, Report.addDiagnostic, Console.start,
    Console.write, lines, error, shown]
  simpa using one

/-- The command that rewrites its input does what the library does with the text, under the settings
that its options ask for.  It succeeds exactly if the library does and the output can be delivered,
and then delivers the text of the library: a file that is named for it holds just that text, and
all others are as before.  Otherwise it writes nothing but its report; for a failure of the library
that is in a strict command the diagnostic, and a line that counts it. -/
theorem front_agrees (palette : Palette) {arguments : List String}
    (parsed : parse arguments = .ok (some ⟨.front, options⟩)) (valid : options.Valid)
    (holds : workspace.Holds (.ofPath options.input) text) :
    let session := (action palette arguments).run workspace
    (session.1.status = .success ↔ ∃ output, options.library text = .ok output ∧
      ∀ path, options.outputFile? = some path → ∃ after,
        workspace.writeFile path output = .ok after) ∧
    (session.1.status = .success → ∃ output, options.library text = .ok output ∧
      (options.outputFile? = none → session.1.stdout = output ∧ session.2 = workspace) ∧
      ∀ path, options.outputFile? = some path → session.1.stdout = "" ∧
        session.2.readFile path = .ok output.toUTF8.toList ∧ session.2.stdin = workspace.stdin ∧
        ∀ other, Place.ofPath path ≠ .ok (.entry other false) →
          session.2.contents? other = workspace.contents? other) ∧
    (session.1.status ≠ .success → session.1.stdout = "" ∧ session.2 = workspace) ∧
    ∀ halt, options.library text = .error halt →
      ∃ diagnostic, halt = .refused diagnostic ∧ session.1.status = .rejected ∧
        (options.tolerant = false → options.reportStyle = .lines → options.verbose = 0 →
          palette.enabled = false →
          session.1.stderr = diagnostic.text ++ "\n" ++ "1 error(s) generated.\n") := by
  intro session
  have agrees := options.treat_agrees text
  have ran : session = (options.front palette).run workspace := by
    unfold session action
    rw [parsed]
    rfl
  rw [front, run_withResult valid holds] at ran
  cases outcome : options.library text with
  | error halt =>
      obtain ⟨diagnostic, rfl⟩ := agrees.refuses outcome
      obtain ⟨none, -⟩ := agrees.failed diagnostic outcome
      simp only [none, Console.run_reject] at ran
      rw [ran]
      refine ⟨by simp, by simp, fun _ => ⟨rfl, rfl⟩, ?_⟩
      rintro _ ⟨⟩
      refine ⟨diagnostic, rfl, rfl, fun strict lines still plain => ?_⟩
      exact stderr_of_strict strict lines still plain outcome
  | ok output =>
      obtain ⟨result, made, printed, -⟩ := agrees.succeeded output outcome
      simp only [made, printed] at ran
      have delivers := run_deliver options (options.treated palette text) workspace output
      rw [← ran] at delivers
      rcases delivers with ⟨succeeded, delivered, -⟩ | ⟨failed, silent, same, path, fault, named, unwritten⟩
      · unfold Delivers at delivered
        cases named : options.outputFile? with
        | none =>
            rw [named] at delivered
            refine ⟨by simp [succeeded], fun _ => ⟨output, rfl, fun _ => delivered, nofun⟩,
              fun other => absurd succeeded other, by simp⟩
        | some path =>
            rw [named] at delivered
            obtain ⟨silent, written⟩ := delivered
            refine ⟨by simp [succeeded, written], fun _ => ⟨output, rfl, nofun, ?_⟩,
              fun other => absurd succeeded other, by simp⟩
            rintro _ ⟨⟩
            exact ⟨silent, Workspace.writeFile_exact written⟩
      · refine ⟨?_, fun succeeded => absurd succeeded failed, fun _ => ⟨silent, same⟩, by simp⟩
        simp [failed, named, unwritten]

/-- A reference of standard input to standard output, and a failure there. -/
theorem front_agrees_reference :
    let arguments := ["rewrite", "--whole", "-"]
    let session (text : String) := (action ⟨false⟩ arguments).run ⟨text.toUTF8.toList, []⟩
    ∃ options diagnostic, parse arguments = .ok (some ⟨.front, options⟩) ∧ options.Valid ∧
      options.library "x::(&)" = .ok "& x" ∧ (session "x::(&)").1.status = .success ∧
      (session "x::(&)").1.stdout = "& x" ∧
      options.library "x::(frob)" = .error (.refused diagnostic) ∧
      (session "x::(frob)").1.status = .rejected ∧
      (session "x::(frob)").1.stderr = diagnostic.text ++ "\n" ++ "1 error(s) generated.\n" := by
  intro arguments session
  have run : (parse arguments).toOption.any fun invocation => invocation.any fun invocation =>
      invocation.command == .front && invocation.options.input == "-" &&
        invocation.options.blankFault?.isNone && invocation.options.settings.problems.isEmpty &&
        invocation.options.outputFile?.isNone && !invocation.options.tolerant &&
        invocation.options.reportStyle == .lines && invocation.options.verbose == 0 &&
        (match invocation.options.library "x::(&)" with
          | .ok output => output == "& x"
          | .error _ => false) &&
        (match invocation.options.library "x::(frob)" with
          | .ok _ => false
          | .error _ => true) := by
    decide +kernel
  obtain ⟨value, parsed, run⟩ := exists_ok_of_any run
  rw [Option.any_eq_true] at run
  obtain ⟨⟨command, options⟩, rfl, run⟩ := run
  simp only [Bool.and_eq_true, beq_iff_eq, Option.isNone_iff_eq_none, List.isEmpty_iff,
    Bool.not_eq_true'] at run
  obtain ⟨⟨⟨⟨⟨⟨⟨⟨⟨rfl, input⟩, complete⟩, sound⟩, shown⟩, strict⟩, lines⟩, still⟩, fronts⟩, fails⟩ :=
    run
  have valid : options.Valid := ⟨complete, sound⟩
  have holds (text : String) (decoded : Source.decode text.toUTF8.toList = .ok text) :
      Workspace.Holds ⟨text.toUTF8.toList, []⟩ (.ofPath options.input) text := by
    rw [input]
    exact ⟨_, rfl, decoded⟩
  cases moved : options.library "x::(&)" with
  | error diagnostic => simp [moved] at fronts
  | ok output =>
      obtain rfl : output = "& x" := by simpa [moved] using fronts
      cases refused : options.library "x::(frob)" with
      | ok output => simp [refused] at fails
      | error halt =>
          obtain ⟨succeeds, delivers, -, -⟩ :=
            front_agrees ⟨false⟩ parsed valid (holds "x::(&)" (by decide +kernel))
          obtain ⟨-, -, -, reports⟩ :=
            front_agrees ⟨false⟩ parsed valid (holds "x::(frob)" (by decide +kernel))
          have success := succeeds.mpr ⟨_, moved, by simp [shown]⟩
          obtain ⟨output, same, delivered, -⟩ := delivers success
          rw [moved] at same
          cases same
          obtain ⟨diagnostic, rfl, rejected, reported⟩ := reports halt refused
          exact ⟨options, diagnostic, parsed, valid, moved, success, (delivered shown).1, refused,
            rejected, reported strict lines still rfl⟩

end CommandLine.Options

end Headfirst
