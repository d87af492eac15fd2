import Headfirst.Proofs.Sessions

namespace Headfirst

open Headfirst.Tree

/-! What a command reports and delivers, against what the library makes of the same text.

A command reads and treats its input step by step where the library has one call.  Both come to the
same text or to the same failure; a command also reports what is tolerated on the way. -/

namespace Event

def isTolerated (event : Event) : Bool :=
  event.tolerated?.isSome

theorem filter_isTolerated_eq_nil {events : List Event}
    (none : events.filterMap tolerated? = []) : events.filter isTolerated = [] := by
  rw [List.filter_eq_nil_iff]
  intro event member
  have aside := List.filterMap_eq_nil_iff.mp none event member
  simp [isTolerated, aside]

end Event

namespace Fragment

variable {settings : Settings} {macroName other : String}

theorem expand_called (same : settings.called macroName = settings.called other)
    (fragment : Fragment) :
    fragment.expand settings macroName = fragment.expand settings other := by
  unfold Settings.called at same
  simp only [expand, same]

/-- A strict run tells of nothing that it tolerates. -/
theorem filter_isTolerated_front (strict : settings.tolerant = false) (fragment : Fragment) :
    (fragment.front settings).events.filter Event.isTolerated = [] := by
  obtain ⟨told, none⟩ := front_told settings fragment
  exact Event.filter_isTolerated_eq_nil (told.trans (none strict))

/-- What an expansion tells, whether it fails or not. -/
theorem expand_tally (settings : Settings) (macroName : String) (fragment : Fragment) :
    let name := settings.called macroName
    let tally := (Expansion.expand settings name Stack.frames fragment.children {}).tally
    (fragment.expand settings macroName).2.2.tolerated = tally.tolerated ∧
      ∀ kind : Event → Bool, (∀ invocations, kind (.expansionDone invocations name) = false) →
        (fragment.expand settings macroName).2.2.events.reverse.filter kind =
          tally.events.reverse.filter kind := by
  intro name tally
  cases halted : (Expansion.expand settings name Stack.frames fragment.children {}).halt with
  | some halt =>
      have expanded : (fragment.expand settings macroName).2.2 = tally := by
        unfold name Settings.called at halted
        simp only [expand, halted]
        rfl
      rw [expanded]
      exact ⟨rfl, fun kind _ => rfl⟩
  | none =>
      have expanded : (fragment.expand settings macroName).2.2 =
          { tally with events := .expansionDone tally.invocations name :: tally.events } := by
        unfold name Settings.called at halted
        simp only [expand, halted]
        rfl
      rw [expanded]
      refine ⟨rfl, fun kind aside => ?_⟩
      simp [aside]

/-- A strict expansion tells of nothing that it tolerates, and keeps nothing of the kind. -/
theorem expand_strict (strict : settings.tolerant = false) (macroName : String)
    {fragment : Fragment} (enough : Expansion.ample fragment.children ≤ Stack.frames) :
    (fragment.expand settings macroName).2.2.events.reverse.filter Event.isTolerated = [] ∧
      (fragment.expand settings macroName).2.2.tolerated = [] := by
  obtain ⟨tolerated, events⟩ := expand_tally settings macroName fragment
  obtain ⟨ran, kept, within, front, told⟩ :=
    (Expansion.expand_tells settings (settings.called macroName) fragment.children _ {}
      enough).exists_ran
  have clean : ∀ run ∈ ran, run.events.filter Event.isTolerated = [] ∧ run.tolerated = [] := by
    intro run member
    obtain ⟨invocation, -, rfl⟩ := List.mem_map.mp (within.subset member)
    exact ⟨filter_isTolerated_front strict _, (front_told settings _).2 strict⟩
  rw [events _ fun _ => rfl, tolerated, told.events _ fun _ => rfl, told.tolerated]
  constructor
  · simpa [List.flatMap_eq_nil_iff] using fun run member => (clean run member).1
  · simpa [List.flatMap_eq_nil_iff] using fun run member => (clean run (front.subset member)).2

end Fragment

namespace CommandLine

/-- Without more being asked for, the log names what is tolerated, and nothing if it is kept
quiet. -/
theorem log_still (quiet : Bool) (events : List Event) :
    log (.threshold quiet 0) events =
      if quiet then "" else String.join ((events.filter Event.isTolerated).map logLine) := by
  unfold log
  cases quiet with
  | true =>
      have none : events.filter (fun event =>
          decide ((Level.threshold true 0).rank ≤ (level event).rank)) = [] := by
        rw [List.filter_eq_nil_iff]
        intro event _
        cases event <;> simp [Level.threshold, level, Level.rank]
      rw [none]
      rfl
  | false =>
      have same : (fun event => decide ((Level.threshold false 0).rank ≤ (level event).rank)) =
          Event.isTolerated := by
        funext event
        cases event <;> rfl
      rw [same]
      rfl

theorem log_strict {events : List Event} (none : events.filter Event.isTolerated = [])
    (quiet : Bool) : log (.threshold quiet 0) events = "" := by
  rw [log_still, none]
  exact ite_self _

namespace Options

variable {options : Options} {source : String}

theorem tolerant_settings (options : Options) : options.settings.tolerant = options.tolerant := by
  cases tolerant : options.tolerant <;> simp [settings, Settings.override, tolerant]

/-- The name of the macro that is given is the one in the settings. -/
theorem called_given (options : Options) :
    options.settings.called (options.macroName.toOption.getD "") = options.settings.called "" := by
  unfold Settings.called
  cases given : options.macroName.toOption with
  | none => simp
  | some name =>
      have chosen : options.settings.macroName = name := by
        simp [settings, Settings.override, given]
      split <;> simp_all

/-- A treatment that comes to what the library comes to: to the same text, or to a failure whose
diagnostic stands behind those of what was tolerated.  A strict one tolerates nothing. -/
structure Agrees (options : Options) (source : String) (treatment : Treatment)
    (outcome : Except (Halt Diagnostic) String) : Prop where
  succeeded : ∀ output, outcome = .ok output →
    ∃ result, treatment.result = some result ∧ result.tree.render = output ∧
      ∃ tolerated : List Failure, (options.tolerant = false → tolerated = []) ∧
        treatment.diagnostics = tolerated.map (Fragment.warningIn source)
  failed : ∀ diagnostic, outcome = .error (.refused diagnostic) → treatment.result = none ∧
    ∃ failure, diagnostic = Fragment.failureIn source failure ∧
      ∃ tolerated : List Failure, (options.tolerant = false → tolerated = []) ∧
        treatment.diagnostics = tolerated.map (Fragment.warningIn source) ++ [diagnostic]
  sound : outcome ≠ .error .overflow
  strict : options.tolerant = false → treatment.events.filter Event.isTolerated = []

namespace Agrees

variable {treatment : Treatment}

/-- What the library does not do, it refuses. -/
theorem refuses {outcome : Except (Halt Diagnostic) String} {halt : Halt Diagnostic}
    (agrees : options.Agrees source treatment outcome) (failed : outcome = .error halt) :
    ∃ diagnostic, halt = .refused diagnostic := by
  cases halt with
  | refused diagnostic => exact ⟨diagnostic, rfl⟩
  | overflow => exact absurd failed agrees.sound

theorem of_ok {output : String} {result : Fragment} {tolerated : List Failure}
    (made : treatment.result = some result) (printed : result.tree.render = output)
    (none : options.tolerant = false → tolerated = [])
    (told : treatment.diagnostics = tolerated.map (Fragment.warningIn source))
    (strict : options.tolerant = false → treatment.events.filter Event.isTolerated = []) :
    options.Agrees source treatment (.ok output) := by
  refine ⟨?_, by simp, by simp, strict⟩
  rintro _ ⟨⟩
  exact ⟨result, made, printed, tolerated, none, told⟩

theorem of_error {failure : Failure} {tolerated : List Failure}
    (unmade : treatment.result = .none) (none : options.tolerant = false → tolerated = [])
    (told : treatment.diagnostics =
      tolerated.map (Fragment.warningIn source) ++ [Fragment.failureIn source failure])
    (strict : options.tolerant = false → treatment.events.filter Event.isTolerated = []) :
    options.Agrees source treatment (.error (.refused (Fragment.failureIn source failure))) := by
  refine ⟨by simp, ?_, by simp, strict⟩
  rintro _ ⟨⟩
  exact ⟨unmade, failure, rfl, tolerated, none, told⟩

end Agrees

theorem treat_agrees (options : Options) (source : String) :
    options.Agrees source (options.treat source options.file) (options.library source) := by
  have strictly : options.tolerant = false → options.settings.tolerant = false :=
    options.tolerant_settings.trans
  have nothing : options.tolerant = false → ([] : List Failure) = [] := fun _ => rfl
  unfold library treat Fragment.frontSource Fragment.expandSource
  cases lexed : Fragment.read source options.file with
  | error failure =>
      cases options.whole <;> exact .of_error rfl nothing rfl fun _ => rfl
  | ok fragment =>
      by_cases whole : options.whole = true
      · have clean (strict : options.tolerant = false) :=
          Fragment.filter_isTolerated_front (strictly strict) fragment
        have none (strict : options.tolerant = false) :=
          (Fragment.front_told options.settings fragment).2 (strictly strict)
        simp only [whole, if_true]
        cases ran : (fragment.front options.settings).result with
        | error failure => exact .of_error rfl nothing rfl clean
        | ok result => exact .of_ok rfl rfl none rfl clean
      · have enough := Fragment.ample_of_read lexed
        have clean (strict : options.tolerant = false) :=
          Fragment.expand_strict (strictly strict) "" enough
        have same := Fragment.expand_called options.called_given fragment
        have sound := Fragment.expand_ne_overflow options.settings "" enough
        simp only [whole, same]
        cases expanded : fragment.expand options.settings "" with
        | mk result rest =>
            obtain ⟨halted, tally⟩ := rest
            rw [expanded] at clean sound
            cases halted with
            | some halt =>
                cases halt with
                | refused failure =>
                    exact .of_error rfl (fun strict => (clean strict).2) rfl
                      fun strict => (clean strict).1
                | overflow => contradiction
            | none =>
                exact .of_ok rfl rfl (fun strict => (clean strict).2) rfl
                  fun strict => (clean strict).1

/-- Unless more is asked for, a strict treatment leaves the console as it was. -/
theorem start_log_of_strict (strict : options.tolerant = false) (still : options.verbose = 0)
    (palette : Palette) (source : String) :
    (Console.start options palette).log (options.treat source options.file).events =
      Console.start options palette := by
  have quiet := log_strict ((options.treat_agrees source).strict strict) options.quiet
  simp [Console.log, Console.start, Console.write, still, quiet]

/-- What has been treated can be read. -/
theorem exists_read_of_treat {text file : String} {result : Fragment}
    (made : (options.treat text file).result = some result) :
    ∃ fragment, Fragment.read text file = .ok fragment := by
  cases lexed : Fragment.read text file with
  | ok fragment => exact ⟨fragment, rfl⟩
  | error failure => simp [treat, lexed] at made

end Options

end CommandLine

end Headfirst
