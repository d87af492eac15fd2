import Headfirst.Proofs.Counts
import Headfirst.Proofs.Treatments

namespace Headfirst.CommandLine

open Headfirst.Tree

/-! The command that checks its input, and the number it tells.

The number is that of the splices, but for the invocations directly behind a `::` and the markers
that are lost where groups are dissolved. -/

namespace Options

variable {options : Options} {palette : Palette} {workspace : Workspace} {text file : String}
  {fragment result : Fragment}

theorem keepGroups_settings (options : Options) : options.settings.keepGroups = false := rfl

/-- The invocations that are expanded directly behind a `::`. -/
def guards (options : Options) (fragment : Fragment) : Nat :=
  if options.whole then 0 else fragment.guards (options.settings.called "")

/-- The markers that are left untouched, and are none once groups are dissolved. -/
def lost (options : Options) (fragment : Fragment) : Nat :=
  if options.whole then Tree.lost (fragment.left options.settings)
  else fragment.lostExpanding options.settings (options.settings.called "")

def splices (options : Options) (text : String) : Nat :=
  (options.treat text options.file).events.countP Event.isSplice

/-- The console of a check once the input has been read again. -/
def checked (options : Options) (palette : Palette) (text : String) (fragment : Fragment) :
    Console :=
  (options.treated palette text).log [.read options.file fragment.children.length]

theorem resolved_treat (lexed : Fragment.read text options.file = .ok fragment)
    (made : (options.treat text options.file).result = some result) :
    resolved fragment result + options.guards fragment =
        options.splices text + options.lost fragment ∧
      (options.tolerant = false → resolved fragment result ≤ options.splices text) := by
  have count : resolved fragment result =
      markersAll fragment.children - markersAll result.children := rfl
  have strictly : options.tolerant = false → options.settings.tolerant = false :=
    options.tolerant_settings.trans
  have dissolved := options.keepGroups_settings
  rw [count]
  unfold splices guards lost treat at *
  simp only [lexed] at made ⊢
  by_cases whole : options.whole = true
  · simp only [whole, if_true] at made ⊢
    cases succeeded : (fragment.front options.settings).result with
    | error failure => simp [succeeded] at made
    | ok other =>
        simp only [succeeded, Option.some.injEq] at made ⊢
        subst other
        have told := Fragment.front_countP_isSplice succeeded
        have exact := Fragment.markersAll_front dissolved succeeded
        rw [List.countP_cons_of_neg (by simp [Event.isSplice]), told]
        refine ⟨by omega, fun strict => ?_⟩
        have every := (Fragment.markersAll_front_strict (strictly strict) succeeded).2
        omega
  · simp only [whole, Bool.false_eq_true, if_false] at made ⊢
    have visible := Fragment.areVisible_of_read lexed
    cases halted : (fragment.expand options.settings "").2.1 with
    | some halt => cases halt <;> simp [halted] at made
    | none =>
        simp only [halted, Option.some.injEq] at made ⊢
        subst result
        have told := Fragment.countP_isSplice_expand (Fragment.ample_of_read lexed) halted
        obtain ⟨exact, least⟩ := Fragment.markersAll_expand dissolved visible halted
        simp only at told exact least
        rw [List.countP_cons_of_neg (by simp [Event.isSplice]), told]
        refine ⟨by omega, fun strict => ?_⟩
        have fewer := least (strictly strict)
        omega

/-- A command that succeeds has had a text and valid options, and has made something of it. -/
theorem exists_of_success {next : Console → String → String → Fragment → Action}
    (succeeded : ((options.withResult palette next).run workspace).1.status = .success) :
    ∃ text, workspace.Holds (.ofPath options.input) text ∧ options.Valid ∧
      ∃ result, (options.treat text options.file).result = some result := by
  rw [withResult, withInput, Action.run_read] at succeeded
  cases given : workspace.given (.ofPath options.input) with
  | error fault =>
      rw [given] at succeeded
      cases named : (Source.ofPath options.input).readError? fault <;>
        simp [named, Console.run_reject, Console.giveUp, Action.run] at succeeded
  | ok bytes =>
      simp only [given] at succeeded
      cases decoded : Source.decode bytes with
      | error fault => simp [decoded, Console.run_reject] at succeeded
      | ok text =>
          simp only [decoded] at succeeded
          cases complete : options.blankFault? with
          | some fault => simp [complete, Console.giveUp, Action.run] at succeeded
          | none =>
              cases sound : options.settings.problems with
              | cons problem problems =>
                  simp [complete, sound, Console.run_reject] at succeeded
              | nil =>
                  cases made : (options.treat text options.file).result with
                  | none =>
                      simp only [complete, sound, crash_treat, file] at succeeded made
                      simp [made, Console.run_reject] at succeeded
                  | some result =>
                      exact ⟨text, ⟨bytes, given, decoded⟩, ⟨complete, sound⟩, result, made⟩

/-- A strict command has nothing to report of a text that it makes something of. -/
theorem diagnostics_of_strict (strict : options.tolerant = false)
    (made : (options.treat text options.file).result = some result) :
    (options.treat text options.file).diagnostics = [] := by
  have agrees := options.treat_agrees text
  cases outcome : options.library text with
  | error halt =>
      obtain ⟨diagnostic, rfl⟩ := agrees.refuses outcome
      have none := (agrees.failed diagnostic outcome).1
      rw [made] at none
      contradiction
  | ok output =>
      obtain ⟨-, -, -, tolerated, none, told⟩ := agrees.succeeded output outcome
      rw [told, none strict, List.map_nil]

/-- A strict check writes nothing beside the number it tells. -/
theorem checked_strict (strict : options.tolerant = false) (lines : options.reportStyle = .lines)
    (still : options.verbose = 0)
    (made : (options.treat text options.file).result = some result) :
    (options.checked palette text fragment).written = "" ∧
      (options.checked palette text fragment).report.closing = "" := by
  have again : log (.threshold options.quiet 0)
      [.read options.file fragment.children.length] = "" := log_strict rfl _
  rw [checked, treated, start_log_of_strict strict still, options.diagnostics_of_strict strict made]
  simp [Console.addDiagnostics, Report.addDiagnostics, Console.start, Console.log, Console.write,
    still, again, lines, Report.closing]

theorem reportStyle_of_tells (tells : options.tellsResolved = true) :
    options.reportStyle = .lines := by
  simp only [tellsResolved, Bool.and_eq_true, Bool.or_eq_true, decide_eq_true_eq] at tells
  rcases tells.2 with absent | lines
  · simp [reportStyle, absent, Given.toOption]
  · simp [reportStyle, lines, Given.toOption]

/-- A check that succeeds tells how many markers of its input are not in the result.  That is the
number of splices, less the invocations directly behind a `::`, and more by the markers that
are lost where groups are dissolved.  A strict check writes nothing else, and tells of no more than
its splices, and of all of them if no invocation is directly behind a `::`. -/
theorem check_counts (palette : Palette) {arguments : List String}
    (parsed : parse arguments = .ok (some ⟨.check, options⟩))
    (tells : options.tellsResolved = true)
    (succeeded : ((action palette arguments).run workspace).1.status = .success) :
    ∃ text fragment, ∃ count : Int, workspace.Holds (.ofPath options.input) text ∧
      Fragment.read text options.file = .ok fragment ∧
      ((action palette arguments).run workspace).1.stderr =
        (options.checked palette text fragment).written ++
          resolvedLine palette options.file count ++
          (options.checked palette text fragment).report.closing ∧
      count + options.guards fragment = options.splices text + options.lost fragment ∧
      (options.tolerant = false → count ≤ options.splices text ∧
        (options.guards fragment = 0 → count = options.splices text) ∧
        (options.verbose = 0 → ((action palette arguments).run workspace).1.stderr =
          resolvedLine palette options.file count)) := by
  have ran : (action palette arguments).run workspace = (options.check palette).run workspace := by
    unfold action
    rw [parsed]
    rfl
  rw [ran] at succeeded ⊢
  obtain ⟨text, holds, valid, result, made⟩ := exists_of_success succeeded
  obtain ⟨fragment, lexed⟩ := exists_read_of_treat made
  obtain ⟨exact, least⟩ := resolved_treat lexed made
  have told : ((options.check palette).run workspace).1.stderr =
      (options.checked palette text fragment).written ++
        resolvedLine palette options.file (resolved fragment result) ++
        (options.checked palette text fragment).report.closing := by
    rw [check, run_withResult valid holds]
    simp only [made, lexed, tells, if_true]
    rfl
  refine ⟨text, fragment, resolved fragment result, holds, lexed, told, exact, fun strict => ?_⟩
  have fewer := least strict
  refine ⟨fewer, fun unguarded => by omega, fun still => ?_⟩
  obtain ⟨before, behind⟩ := checked_strict strict (reportStyle_of_tells tells) still made
  rw [told, before, behind, String.empty_append, String.append_empty]

/-- A chain of two references in an invocation. -/
theorem check_counts_chain :
    let arguments := ["check", "-"]
    let source := "sonic_spin!(x::(&)::(&))"
    let ending := ((action ⟨false⟩ arguments).run ⟨source.toUTF8.toList, []⟩).1
    ∃ options, parse arguments = .ok (some ⟨.check, options⟩) ∧ options.tellsResolved = true ∧
      ending.status = .success ∧ options.splices source = 2 ∧
      ending.stderr = resolvedLine ⟨false⟩ "<stdin>" 2 := by
  intro arguments source ending
  have run : (parse arguments).toOption.any fun invocation => invocation.any fun invocation =>
      invocation.command == .check && invocation.options.tellsResolved &&
        invocation.options.input == "-" && !invocation.options.tolerant &&
        invocation.options.verbose == 0 && ending.status == .success &&
        invocation.options.splices source == 2 &&
        (Fragment.read source "<stdin>").toOption.any
          (invocation.options.guards · == 0) := by
    decide +kernel
  obtain ⟨value, parsed, run⟩ := exists_ok_of_any run
  rw [Option.any_eq_true] at run
  obtain ⟨⟨command, options⟩, rfl, run⟩ := run
  simp only [Bool.and_eq_true, beq_iff_eq, Bool.not_eq_true'] at run
  obtain ⟨⟨⟨⟨⟨⟨⟨rfl, tells⟩, input⟩, strict⟩, still⟩, success⟩, splices⟩, unguarded⟩ := run
  obtain ⟨text, fragment, count, ⟨bytes, given, decoded⟩, lexed, -, -, exact⟩ :=
    check_counts ⟨false⟩ parsed tells success
  have file : options.file = "<stdin>" := by
    rw [Options.file, input]
    rfl
  obtain rfl : text = source := by
    have spelled : Source.decode source.toUTF8.toList = .ok source := by decide +kernel
    rw [input] at given
    cases given
    exact Except.ok.inj (decoded.symm.trans spelled)
  obtain ⟨other, same, none⟩ := exists_ok_of_any unguarded
  rw [file] at lexed exact
  cases lexed.symm.trans same
  obtain ⟨-, every, line⟩ := exact strict
  have number : count = 2 := by
    rw [every (beq_iff_eq.mp none), splices]
    rfl
  exact ⟨options, parsed, tells, success, splices, number ▸ line still⟩

/-- Behind a `::` an expansion can leave a marker that was none: the check tells of one occurrence
less than none. -/
theorem check_counts_guarded :
    let arguments := ["check", "-"]
    let source := "a::sonic_spin!((match)) \x7b\x7d"
    let ending := ((action ⟨false⟩ arguments).run ⟨source.toUTF8.toList, []⟩).1
    ending.status = .success ∧ ending.stderr = "ok <stdin>: -1 occurrence(s) resolved.\n" ∧
      ∃ options, parse arguments = .ok (some ⟨.check, options⟩) ∧ options.splices source = 0 := by
  intro arguments source ending
  have run : ending.status = .success ∧
      ending.stderr = "ok <stdin>: -1 occurrence(s) resolved.\n" ∧
      (parse arguments).toOption.any fun invocation => invocation.any fun invocation =>
        invocation.command == .check && invocation.options.splices source == 0 := by
    decide +kernel
  obtain ⟨success, told, run⟩ := run
  obtain ⟨value, parsed, run⟩ := exists_ok_of_any run
  rw [Option.any_eq_true] at run
  obtain ⟨⟨command, options⟩, rfl, run⟩ := run
  simp only [Bool.and_eq_true, beq_iff_eq] at run
  obtain ⟨rfl, none⟩ := run
  exact ⟨success, told, options, parsed, none⟩

end Options

end Headfirst.CommandLine
