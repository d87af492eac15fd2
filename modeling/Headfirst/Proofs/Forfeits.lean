import Headfirst.Proofs.Culprits
import Headfirst.Proofs.Treatments

namespace Headfirst

open Headfirst.Tree

/-! What a command forfeits when one of its runs fails.

A command collects what its runs tolerate, and reports it once there is no more to be done.  A run
that fails has told of what it has tolerated until then, but all that is collected of it is its
failure. -/

namespace Event

theorem filterMap_filter_isTolerated (events : List Event) :
    (events.filter isTolerated).filterMap tolerated? = events.filterMap tolerated? := by
  induction events with
  | nil => rfl
  | cons event events ih =>
      cases aside : event.tolerated? with
      | none => simp [isTolerated, aside, ih]
      | some failure => simp [isTolerated, aside, ih]

end Event

namespace Fragment

variable {settings : Settings} {macroName : String} {fragment : Fragment}

theorem filterMap_tolerated_runs {runs : List Run}
    (tell : ∀ run ∈ runs, run.events.filterMap Event.tolerated? = run.tolerated) :
    (runs.flatMap (·.events.filter Event.isTolerated)).filterMap Event.tolerated? =
      runs.flatMap (·.tolerated) := by
  induction runs with
  | nil => rfl
  | cons run runs ih =>
      obtain ⟨first, others⟩ := List.forall_mem_cons.mp tell
      rw [List.flatMap_cons, List.flatMap_cons, List.filterMap_append,
        Event.filterMap_filter_isTolerated, first, ih others]

/-- An expansion that fails has told of what all its runs have tolerated, and has collected it of
those before the one that fails. -/
theorem expand_stops {failure : Failure}
    (enough : Expansion.ample fragment.children ≤ Stack.frames)
    (stopped : (fragment.expand settings macroName).2.1 = some (.refused failure)) :
    let name := settings.called macroName
    let tally := (fragment.expand settings macroName).2.2
    ∃ earlier last,
      earlier ++ [last] <+: (Invocation.all name fragment.children).map (·.run settings name) ∧
      (∀ run ∈ earlier, run.failure? = none) ∧ last.failure? = some failure ∧
      tally.events.reverse.filterMap Event.tolerated? =
        (earlier ++ [last]).flatMap (·.tolerated) ∧
      tally.tolerated = earlier.flatMap (·.tolerated) := by
  intro name tally
  obtain ⟨tolerated, events⟩ := expand_tally settings macroName fragment
  have halted := (halt_expand settings macroName fragment).symm.trans stopped
  obtain ⟨earlier, last, other, within, succeed, lastFails, same, told⟩ :=
    (Expansion.expand_tells settings name fragment.children _ {} enough).stopped _ halted
  cases same
  refine ⟨earlier, last, within, succeed, lastFails, ?_, ?_⟩
  · have tell : ∀ run ∈ earlier ++ [last],
        run.events.filterMap Event.tolerated? = run.tolerated := by
      intro run member
      obtain ⟨invocation, -, rfl⟩ := List.mem_map.mp (within.subset member)
      exact (front_told settings _).1
    rw [← Event.filterMap_filter_isTolerated, events _ fun _ => rfl, told.events _ fun _ => rfl]
    exact filterMap_tolerated_runs tell
  · exact tolerated.trans told.tolerated

end Fragment

namespace CommandLine

/-- A treatment that stops at the last of some runs.  It tells of what each of them has tolerated,
and reports it, but for the last one: of that it reports the failure alone. -/
structure Treatment.Stops (source : String) (earlier : List Run) (last : Run) (failure : Failure)
    (treatment : Treatment) : Prop where
  unmade : treatment.result = none
  succeed : ∀ run ∈ earlier, run.failure? = none
  fails : last.failure? = some failure
  told : treatment.events.filterMap Event.tolerated? = (earlier ++ [last]).flatMap (·.tolerated)
  reported : treatment.diagnostics =
    (earlier.flatMap (·.tolerated)).map (Fragment.warningIn source) ++
      [Fragment.failureIn source failure]

/-- What is told is reported exactly if the run that fails has tolerated nothing. -/
theorem Treatment.Stops.reports_told_iff {source : String} {earlier : List Run} {last : Run}
    {failure : Failure} {treatment : Treatment} (stops : treatment.Stops source earlier last failure) :
    treatment.diagnostics =
        (treatment.events.filterMap Event.tolerated?).map (Fragment.warningIn source) ++
          [Fragment.failureIn source failure] ↔
      last.tolerated = [] := by
  rw [stops.told, stops.reported, List.append_left_inj, List.flatMap_append, List.map_append]
  simp

namespace Options

variable {options : Options} {palette : Palette} {workspace : Workspace} {text : String}
  {fragment : Fragment}

/-- The runs over a fragment, in their order. -/
def runs (options : Options) (fragment : Fragment) : List Run :=
  let name := options.settings.called ""
  if options.whole then [fragment.front options.settings]
  else (Invocation.all name fragment.children).map (·.run options.settings name)

/-- A treatment of what can be read makes something of it, or stops at one of the runs. -/
theorem treat_stops (lexed : Fragment.read text options.file = .ok fragment)
    (unmade : (options.treat text options.file).result = none) :
    ∃ earlier last failure, earlier ++ [last] <+: options.runs fragment ∧
      (options.treat text options.file).Stops text earlier last failure := by
  unfold treat runs at *
  simp only [lexed] at unmade ⊢
  by_cases whole : options.whole = true
  · simp only [whole, if_true] at unmade ⊢
    cases ran : (fragment.front options.settings).result with
    | ok result => simp [ran] at unmade
    | error failure =>
        have fails : (fragment.front options.settings).failure? = some failure := by
          rw [Run.failure?, ran]
        have told := (Fragment.front_told options.settings fragment).1
        refine ⟨[], _, failure, List.prefix_rfl, rfl, by simp, fails, ?_, rfl⟩
        rw [List.filterMap_cons_none rfl, told, List.nil_append, List.flatMap_singleton]
  · simp only [whole, Bool.false_eq_true, if_false] at unmade ⊢
    have enough := Fragment.ample_of_read lexed
    cases halted : (fragment.expand options.settings "").2.1 with
    | none => simp [halted] at unmade
    | some halt =>
        cases halt with
        | overflow => exact absurd halted (Fragment.expand_ne_overflow _ _ enough)
        | refused failure =>
            obtain ⟨earlier, last, within, succeed, fails, told, kept⟩ :=
              Fragment.expand_stops enough halted
            refine ⟨earlier, last, failure, within, rfl, succeed, fails, told, ?_⟩
            rw [kept]

/-- A failure that is no matter of reading is one of a source that can be read. -/
theorem exists_read_of_limit {diagnostic : Diagnostic} {bound : Int}
    (failed : options.library text = .error (.refused diagnostic))
    (limit : diagnostic.category = .limit bound) :
    ∃ fragment, Fragment.read text options.file = .ok fragment := by
  unfold library Fragment.frontSource Fragment.expandSource at failed
  cases lexed : Fragment.read text options.file with
  | ok fragment => exact ⟨fragment, rfl⟩
  | error failure =>
      have same : Fragment.failureIn text failure = diagnostic := by
        simp only [lexed] at failed
        split at failed <;> exact Halt.refused.inj (Except.error.inj failed)
      obtain ⟨line, shown⟩ := Fragment.exists_failureIn text failure
      rw [← same, shown] at limit
      exact absurd ((Fragment.lexical_of_read lexed).symm.trans limit) (by simp)

/-- A command that stops at a limit is rejected, and reports what was tolerated before the run that
stops, then the diagnostic.  The run has told of what it has tolerated itself, but this is not
reported: the report is that of all that was told exactly if there is nothing of the kind. -/
theorem reports_at_limit (palette : Palette) {arguments : List String} {command : Command}
    {diagnostic : Diagnostic} {bound : Int}
    (parsed : parse arguments = .ok (some ⟨command, options⟩)) (treats : command ≠ .tokens)
    (valid : options.Valid) (holds : workspace.Holds (.ofPath options.input) text)
    (failed : options.library text = .error (.refused diagnostic))
    (limit : diagnostic.category = .limit bound) :
    let session := (action palette arguments).run workspace
    let console := options.treated palette text
    let treatment := options.treat text options.file
    ∃ fragment earlier last failure, Fragment.read text options.file = .ok fragment ∧
      earlier ++ [last] <+: options.runs fragment ∧
      treatment.Stops text earlier last failure ∧ diagnostic = Fragment.failureIn text failure ∧
      session = (⟨.rejected, "", console.written ++ console.report.closing⟩, workspace) ∧
      (treatment.diagnostics =
          (treatment.events.filterMap Event.tolerated?).map (Fragment.warningIn text) ++
            [diagnostic] ↔
        last.tolerated = []) := by
  intro session console treatment
  obtain ⟨fragment, lexed⟩ := exists_read_of_limit failed limit
  obtain ⟨unmade, failure, rfl, tolerated, -, shown⟩ :=
    (options.treat_agrees text).failed diagnostic failed
  obtain ⟨earlier, last, other, within, stops⟩ := treat_stops lexed unmade
  have same : Fragment.failureIn text failure = Fragment.failureIn text other := by
    have ends := congrArg List.getLast? (shown.symm.trans stops.reported)
    simpa using ends
  have ran : session = console.reject.run workspace := by
    have ends (next : Console → String → String → Fragment → Action) :
        (options.withResult palette next).run workspace = console.reject.run workspace := by
      rw [run_withResult valid holds, unmade]
    unfold session action
    rw [parsed]
    change (Invocation.action ⟨command, options⟩ palette).run workspace = _
    cases command with
    | front => rw [Invocation.action, front, ends]
    | check => rw [Invocation.action, check, ends]
    | tokens => contradiction
  refine ⟨fragment, earlier, last, other, lexed, within, stops, same, ran, ?_⟩
  rw [same]
  exact stops.reports_told_iff

/-- What the first invocation tolerates is reported when the second one makes too many splices. -/
theorem reports_at_limit_invocations :
    let arguments :=
      ["rewrite", "--macro", "m", "--tolerate-malformed", "-q", "--max-rewrites", "1", "-"]
    let source := "m!(x::(frob)) m!(y::(&)::(&))"
    let ending := ((action ⟨false⟩ arguments).run ⟨source.toUTF8.toList, []⟩).1
    ∃ options diagnostic failure, parse arguments = .ok (some ⟨.front, options⟩) ∧
      options.library source = .error (.refused diagnostic) ∧ diagnostic.category = .limit 1 ∧
      ending.status = .rejected ∧
      (options.treat source options.file).events.filterMap Event.tolerated? = [failure] ∧
      (options.treat source options.file).diagnostics =
        [Fragment.warningIn source failure, diagnostic] := by
  intro arguments source ending
  have run : (parse arguments).toOption.any fun invocation => invocation.any fun invocation =>
      invocation.command == .front && invocation.options.input == "-" &&
        invocation.options.blankFault?.isNone && invocation.options.settings.problems.isEmpty &&
        let treatment := invocation.options.treat source invocation.options.file
        treatment.result.isNone && (treatment.events.filterMap Event.tolerated?).length == 1 &&
          treatment.diagnostics.length == 2 &&
          treatment.diagnostics.getLast?.any (·.category == .limit 1) := by
    decide +kernel
  obtain ⟨value, parsed, run⟩ := exists_ok_of_any run
  rw [Option.any_eq_true] at run
  obtain ⟨⟨command, options⟩, rfl, run⟩ := run
  simp only [Bool.and_eq_true, beq_iff_eq, Option.isNone_iff_eq_none, List.isEmpty_iff] at run
  obtain ⟨⟨⟨⟨rfl, input⟩, complete⟩, sound⟩, ⟨⟨unmade, one⟩, two⟩, limit⟩ := run
  have holds : Workspace.Holds ⟨source.toUTF8.toList, []⟩ (.ofPath options.input) source := by
    rw [input]
    exact ⟨_, rfl, by decide +kernel⟩
  have agrees := options.treat_agrees source
  cases failed : options.library source with
  | ok output =>
      obtain ⟨result, made, -⟩ := agrees.succeeded output failed
      cases unmade.symm.trans made
  | error halt =>
      obtain ⟨diagnostic, rfl⟩ := agrees.refuses failed
      obtain ⟨-, _, -, _, -, ends⟩ := agrees.failed diagnostic failed
      have bound : diagnostic.category = .limit 1 := by simpa [ends] using limit
      obtain ⟨fragment, earlier, last, failure, -, -, stops, -, ran, reports⟩ :=
        reports_at_limit ⟨false⟩ parsed (by decide) ⟨complete, sound⟩ holds failed bound
      obtain ⟨tolerated, alone⟩ := List.length_eq_one_iff.mp one
      have nothing : last.tolerated = [] := by
        have kept := congrArg List.length stops.reported
        have all := congrArg List.length stops.told
        rw [two, List.length_append, List.length_map, List.length_singleton] at kept
        rw [one, List.flatMap_append, List.flatMap_singleton, List.length_append] at all
        exact List.eq_nil_of_length_eq_zero (by omega)
      have whole := reports.mpr nothing
      rw [alone] at whole
      exact ⟨options, diagnostic, tolerated, parsed, failed, bound, congrArg (·.1.status) ran,
        alone, whole⟩

/-- What the run that fails has tolerated is not reported. -/
theorem reports_at_limit_whole :
    let arguments := ["rewrite", "--whole", "--tolerate-malformed", "-q", "--max-rewrites", "1", "-"]
    let source := "x::(frob) \x7b\x7d; y::(&); z::(&)"
    ((action ⟨false⟩ arguments).run ⟨source.toUTF8.toList, []⟩).1 =
        ⟨.rejected, "", "<stdin>:1:24: error: more than 1 rewrites [SPIN-1005]\n" ++
          "    x::(frob) \x7b\x7d; y::(&); z::(&)\n" ++
          "                           ^^\n" ++ "1 error(s) generated.\n"⟩ ∧
      ∃ options, parse arguments = .ok (some ⟨.front, options⟩) ∧
        ((options.treat source "<stdin>").events.filterMap Event.tolerated?).map (·.fault) =
          [.unknownConstruct "frob"] := by
  intro arguments source
  have told : ((action ⟨false⟩ arguments).run ⟨source.toUTF8.toList, []⟩).1 =
      ⟨.rejected, "", "<stdin>:1:24: error: more than 1 rewrites [SPIN-1005]\n" ++
        "    x::(frob) \x7b\x7d; y::(&); z::(&)\n" ++
        "                           ^^\n" ++ "1 error(s) generated.\n"⟩ := by
    decide +kernel
  have run : (parse arguments).toOption.any fun invocation => invocation.any fun invocation =>
      invocation.command == .front &&
        ((invocation.options.treat source "<stdin>").events.filterMap Event.tolerated?).map
          (·.fault) == [.unknownConstruct "frob"] := by
    decide +kernel
  obtain ⟨value, parsed, run⟩ := exists_ok_of_any run
  rw [Option.any_eq_true] at run
  obtain ⟨⟨command, options⟩, rfl, run⟩ := run
  simp only [Bool.and_eq_true, beq_iff_eq] at run
  obtain ⟨rfl, tolerated⟩ := run
  exact ⟨told, options, parsed, tolerated⟩

end Options

end CommandLine

end Headfirst
