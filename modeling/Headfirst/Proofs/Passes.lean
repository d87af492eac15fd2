import Headfirst.Proofs.Flattening
import Headfirst.Proofs.Walk

namespace Headfirst

open Headfirst.Tree

/-! The passes of a run, and how they use up the markers. -/

/-- A pass that was carried through. -/
structure Round where
  start : List Tree
  splices : List Splice
  final : List Tree

namespace Event

/-- The ends of the passes that made a splice. -/
def isProductive : Event → Bool
  | .passDone _ splices => splices ≠ 0
  | _ => false

theorem isWork_of_isProductive {event : Event} (productive : event.isProductive = true) :
    event.isWork = true := by
  cases event <;> first | rfl | contradiction

end Event

namespace Round

/-- How a run reports its passes, the first of which has `pass` before it. -/
def events (parenthesize : Bool) : (pass : Nat) → List Round → List Event
  | _, [] => []
  | pass, round :: rounds =>
      round.splices.map (·.event parenthesize) ++
        .passDone (pass + 1) round.splices.length :: events parenthesize (pass + 1) rounds

def splicesAll (rounds : List Round) : List Splice :=
  rounds.flatMap (·.splices)

theorem countP_map_event (parenthesize : Bool) (splices : List Splice) :
    (splices.map (·.event parenthesize)).countP Event.isProductive = 0 := by
  rw [List.countP_eq_zero]
  intro event member
  obtain ⟨splice, -, rfl⟩ := List.mem_map.mp member
  simp [Splice.event, Event.isProductive]

theorem countP_events_le (parenthesize : Bool) (pass : Nat) (rounds : List Round) :
    (events parenthesize pass rounds).countP Event.isProductive ≤
      (splicesAll rounds).length := by
  induction rounds generalizing pass with
  | nil => simp [events]
  | cons round rounds ih =>
      have later := ih (pass + 1)
      simp only [events, splicesAll, List.countP_append, List.countP_cons, countP_map_event,
        List.flatMap_cons, List.length_append] at later ⊢
      cases made : round.splices with
      | nil =>
          simp only [List.length_nil, Event.isProductive] at later ⊢
          simpa using later
      | cons first others =>
          simp only [List.length_cons] at later ⊢
          split <;> omega

end Round

/-- Passes that lead from one working tree to another. -/
inductive Rounds (parenthesize : Bool) : List Tree → List Round → List Tree → Prop where
  | none (trees : List Tree) : Rounds parenthesize trees [] trees
  | pass {round : Round} {later : List Round} {final : List Tree}
      (trace : Trace parenthesize round.start round.splices round.final)
      (rest : Rounds parenthesize round.final later final) :
      Rounds parenthesize round.start (round :: later) final

namespace Rounds

variable {parenthesize : Bool} {start final : List Tree} {rounds : List Round}

theorem trace (passes : Rounds parenthesize start rounds final) :
    Trace parenthesize start (Round.splicesAll rounds) final := by
  induction passes with
  | none => exact .done _
  | pass trace rest ih => exact trace.append ih

theorem trace_of_mem (passes : Rounds parenthesize start rounds final) :
    ∀ round ∈ rounds, Trace parenthesize round.start round.splices round.final := by
  induction passes with
  | none => simp
  | pass trace rest ih =>
      intro round member
      rcases List.mem_cons.mp member with rfl | member
      · exact trace
      · exact ih round member

end Rounds

/-- What passes over the working tree `start` come to when `pass` are done before them.
Where they stop, they may stop in the middle of a pass, and if no bound stops them, a malformed
occurrence does. -/
def Outcome.Completes (settings : Settings) (start : List Tree) (pass : Nat)
    (before : Progress) : Outcome (List Tree × Nat) → Prop
  | .done (trees, passes) after =>
      ∃ rounds, Rounds settings.parenthesize start rounds trees ∧
        after.work = before.work ++ Round.events settings.parenthesize pass rounds ∧
        after.splices = before.splices + (Round.splicesAll rounds).length ∧
        passes = pass + rounds.length
  | .stopped failure after =>
      (∃ rounds middle last final, Rounds settings.parenthesize start rounds middle ∧
        Trace settings.parenthesize middle last final ∧
        after.work = before.work ++ Round.events settings.parenthesize pass rounds ++
          last.map (·.event settings.parenthesize) ∧
        (failure.fault.isLimit = false → ∃ site, Malformed final site failure)) ∧
      ∀ markers remaining splices, failure.fault ≠ .markersDrifted markers remaining splices

namespace Outcome.Completes

variable {settings : Settings} {pass : Nat} {before between : Progress} (round : Round)

theorem after {outcome : Outcome (List Tree × Nat)}
    (first : Led settings.parenthesize round.start before round.splices round.final between)
    (counted : between.splices = before.splices + round.splices.length)
    (later : outcome.Completes settings round.final (pass + 1)
      (between.record [.passDone (pass + 1) round.splices.length])) :
    outcome.Completes settings round.start pass before := by
  have work : (between.record [.passDone (pass + 1) round.splices.length]).work =
      before.work ++ round.splices.map (·.event settings.parenthesize) ++
        [.passDone (pass + 1) round.splices.length] := by
    rw [Progress.work_record, first.work]
    rfl
  cases outcome with
  | done value after =>
      obtain ⟨rounds, passes, reported, count, number⟩ := later
      refine ⟨round :: rounds, .pass first.trace passes, ?_, ?_, ?_⟩
      · rw [reported, work]
        simp [Round.events]
      · rw [count, Progress.splices_record, counted]
        simp only [Round.splicesAll, List.flatMap_cons, List.length_append]
        omega
      · rw [number, List.length_cons]
        omega
  | stopped failure after =>
      obtain ⟨⟨rounds, middle, last, final, passes, trace, reported, site⟩, fault⟩ := later
      refine ⟨⟨round :: rounds, middle, last, final, .pass first.trace passes, trace, ?_, site⟩,
        fault⟩
      rw [reported, work]
      simp [Round.events]

theorem last
    (first : Led settings.parenthesize round.start before round.splices round.final between)
    (counted : between.splices = before.splices + round.splices.length) :
    (Outcome.done (round.final, pass + 1)
      (between.record [.passDone (pass + 1) round.splices.length])).Completes settings
        round.start pass before :=
  after round first counted ⟨[], .none _, by simp [Round.events], by simp [Round.splicesAll], rfl⟩

end Outcome.Completes

namespace Fronting

variable {settings : Settings}

theorem sequence_round {trees result : List Tree} {progress after : Progress}
    (done : sequence settings trees progress = .done result after) :
    ∃ splices, Led settings.parenthesize trees progress splices result after ∧
      after.splices = progress.splices + splices.length := by
  have follows := sequence_follows settings trees progress
  rw [done] at follows
  exact follows

/-- The markers that a pass leaves are those it found without one for each of its splices. -/
theorem markersAll_sequence {trees result : List Tree} {progress after : Progress}
    (done : sequence settings trees progress = .done result after) :
    markersAll result + (after.splices - progress.splices) = markersAll trees := by
  obtain ⟨splices, led, counted⟩ := sequence_round done
  have fewer := led.trace.markersAll_final
  omega

/-- The passes over a fragment are rounds of splices, and the markers are never found to
have drifted. -/
theorem fixpoint_completes (settings : Settings) (span : Span) (pass : Nat) (trees : List Tree)
    (progress : Progress) :
    (fixpoint settings span pass (markersAll trees) trees progress).Completes settings trees
      pass progress := by
  generalize known : markersAll trees = markers
  fun_induction fixpoint settings span pass markers trees progress with
  | case1 pass markers trees progress spent =>
      refine ⟨⟨[], _, [], _, .none _, .done _, by simp [Round.events], nofun⟩, ?_⟩
      intros
      simp
  | case2 pass markers trees progress room failure after stopped =>
      have follows := sequence_follows settings trees progress
      rw [stopped] at follows
      obtain ⟨last, final, led, fault⟩ := follows
      refine ⟨⟨[], trees, last, final, .none _, led.trace, by simp [Round.events, led.work], ?_⟩,
        ?_⟩
      · intro unlimited
        refine fault.resolve_right fun splices => ?_
        rw [splices] at unlimited
        contradiction
      · intro _ _ _ drifted
        rcases fault with ⟨site, malformed⟩ | splices
        · have unlimited := (Site.resolve_error malformed.failed).1
          rw [drifted] at unlimited
          contradiction
        · rw [drifted] at splices
          contradiction
  | case3 pass markers trees progress room result after done splices recorded none =>
      obtain ⟨made, led, counted⟩ := sequence_round done
      have number : splices = made.length := by omega
      simp only [recorded, number]
      exact .last ⟨trees, made, result⟩ led counted
  | case4 pass markers trees progress room result after done splices recorded remaining some drifted =>
      -- a pass uses up a marker for each of its splices, so the count of the run is right
      have fewer := markersAll_sequence done
      rw [known] at fewer
      exact absurd fewer drifted
  | case5 pass markers trees progress room result after done splices recorded remaining some exact none =>
      obtain ⟨made, led, counted⟩ := sequence_round done
      have number : splices = made.length := by omega
      simp only [recorded, number]
      exact .last ⟨trees, made, result⟩ led counted
  | case6 pass markers trees progress room result between done splices recorded remaining some exact more ih =>
      obtain ⟨made, led, counted⟩ := sequence_round done
      have number : splices = made.length := by omega
      have later := ih rfl
      simp only [recorded, number] at later ⊢
      exact .after ⟨trees, made, result⟩ led counted later

end Fronting

/-- A run as its events tell it: passes, and the splices of a pass in which it stopped. -/
structure Course (parenthesize : Bool) (start : List Tree) (events : List Event)
    (rounds : List Round) (middle : List Tree) (last : List Splice) (final : List Tree) :
    Prop where
  passes : Rounds parenthesize start rounds middle
  rest : Trace parenthesize middle last final
  reported : events.filter Event.isWork =
    Round.events parenthesize 0 rounds ++ last.map (·.event parenthesize)

namespace Course

variable {parenthesize : Bool} {start middle final : List Tree} {events : List Event}
  {rounds : List Round} {last : List Splice}

theorem trace (course : Course parenthesize start events rounds middle last final) :
    Trace parenthesize start (Round.splicesAll rounds ++ last) final :=
  course.passes.trace.append course.rest

theorem countP_le (course : Course parenthesize start events rounds middle last final) :
    events.countP Event.isProductive ≤ markersAll start := by
  have counted : events.countP Event.isProductive =
      (Round.events parenthesize 0 rounds).countP Event.isProductive := by
    have work : events.countP Event.isProductive =
        (events.filter Event.isWork).countP Event.isProductive := by
      rw [List.countP_filter]
      refine List.countP_congr fun event _ => ?_
      simpa using Event.isWork_of_isProductive
    rw [work, course.reported, List.countP_append, Round.countP_map_event, Nat.add_zero]
  have made := course.passes.trace.markersAll_final
  have passes := Round.countP_events_le parenthesize 0 rounds
  omega

end Course

namespace Fragment

/-- The progress with which a run sets out. -/
def begun (fragment : Fragment) : Progress :=
  { events := [.started (markersAll fragment.children)] }

@[simp] theorem result_stopped (failure : Failure) (progress : Progress) :
    (stopped failure progress).result = .error failure := rfl

@[simp] theorem work_begun (fragment : Fragment) : fragment.begun.work = [] := rfl

@[simp] theorem splices_begun (fragment : Fragment) : fragment.begun.splices = 0 := rfl

@[simp] theorem tolerated_begun (fragment : Fragment) : fragment.begun.tolerated = [] := rfl

section

variable {settings : Settings} {fragment : Fragment}

theorem front_tooDeep (deep : Fronting.maxDepth < fragment.tree.depth) :
    fragment.front settings = stopped ⟨.treeTooDeep, fragment.tree.span, none⟩ {} := by
  simp only [front, if_pos deep]

theorem front_of_stopped {failure : Failure} {after : Progress}
    (shallow : fragment.tree.depth ≤ Fronting.maxDepth)
    (stops : Fronting.fixpoint settings fragment.tree.span 0 (markersAll fragment.children)
      fragment.children fragment.begun = .stopped failure after) :
    fragment.front settings = stopped failure after := by
  rw [begun] at stops
  simp only [front, if_neg (Nat.not_lt.mpr shallow), stops]

theorem front_of_done {trees : List Tree} {number : Nat} {after : Progress}
    (shallow : fragment.tree.depth ≤ Fronting.maxDepth)
    (done : Fronting.fixpoint settings fragment.tree.span 0 (markersAll fragment.children)
      fragment.children fragment.begun = .done (trees, number) after) :
    fragment.front settings =
      { result := .ok { fragment with children := settle settings trees }
        passes := number
        splices := after.splices
        tolerated := after.tolerated
        events := after.events.reverse ++
          [.finished after.splices number after.tolerated.length] } := by
  rw [begun] at done
  simp only [front, if_neg (Nat.not_lt.mpr shallow), done, settle]

end

theorem front_course (settings : Settings) (fragment : Fragment) :
    ∃ rounds middle last final,
      Course settings.parenthesize fragment.children (fragment.front settings).events
        rounds middle last final ∧
      (∀ failure, (fragment.front settings).result = .error failure →
        ∀ markers remaining splices,
          failure.fault ≠ .markersDrifted markers remaining splices) ∧
      ∀ result, (fragment.front settings).result = .ok result →
        last = [] ∧ result = { fragment with children := settle settings final } ∧
          (fragment.front settings).splices = (Round.splicesAll rounds).length ∧
          (fragment.front settings).passes = rounds.length := by
  by_cases deep : Fronting.maxDepth < fragment.tree.depth
  · rw [front_tooDeep deep]
    refine ⟨[], _, [], _, ⟨.none _, .done _, rfl⟩, ?_, ?_⟩
    · intro failure failed
      cases failed
      simp
    · simp [stopped]
  · have shallow := Nat.not_lt.mp deep
    have completes := Fronting.fixpoint_completes settings fragment.tree.span 0
      fragment.children fragment.begun
    cases loop : Fronting.fixpoint settings fragment.tree.span 0 (markersAll fragment.children)
        fragment.children fragment.begun with
    | stopped failure after =>
        rw [loop] at completes
        obtain ⟨⟨rounds, middle, last, final, passes, trace, work, -⟩, fault⟩ := completes
        rw [front_of_stopped shallow loop]
        refine ⟨rounds, middle, last, final, ⟨passes, trace, ?_⟩, ?_, ?_⟩
        · rw [stopped, Progress.filter_isWork_closed rfl, work, work_begun]
          rfl
        · intro other failed
          cases failed
          exact fault
        · simp [Fragment.stopped]
    | done value after =>
        obtain ⟨trees, number⟩ := value
        rw [loop] at completes
        obtain ⟨rounds, passes, work, counted, numbered⟩ := completes
        rw [front_of_done shallow loop]
        refine ⟨rounds, _, [], _, ⟨passes, .done _, ?_⟩, ?_, ?_⟩
        · rw [Progress.filter_isWork_closed rfl, work, work_begun]
          simp
        · simp
        · intro result succeeded
          cases succeeded
          exact ⟨rfl, rfl, by simpa using counted, by simpa using numbered⟩

/-- A run uses up markers: each of its splices takes one from the working tree, a pass
leaves those it found without one for each of its splices, and no more passes make a splice
than there were markers.  The count that the run keeps of them never drifts. -/
theorem front_uses_up_markers (settings : Settings) (fragment : Fragment) :
    ∃ rounds middle last final,
      Course settings.parenthesize fragment.children (fragment.front settings).events
        rounds middle last final ∧
      (∀ splice ∈ Round.splicesAll rounds ++ last,
        markersAll (splice.target settings.parenthesize) + 1 = markersAll splice.source) ∧
      (∀ round ∈ rounds,
        markersAll round.final + round.splices.length = markersAll round.start) ∧
      (fragment.front settings).events.countP Event.isProductive ≤
        fragment.tree.markers ∧
      (∀ failure, (fragment.front settings).result = .error failure →
        ∀ markers remaining splices,
          failure.fault ≠ .markersDrifted markers remaining splices) ∧
      ∀ result, (fragment.front settings).result = .ok result →
        last = [] ∧ result = { fragment with children := settle settings final } ∧
          (fragment.front settings).splices = (Round.splicesAll rounds).length ∧
          (fragment.front settings).passes = rounds.length := by
  obtain ⟨rounds, middle, last, final, course, exact, succeeded⟩ := front_course settings fragment
  refine ⟨rounds, middle, last, final, course, ?_, ?_, course.countP_le, exact, succeeded⟩
  · intro splice member
    exact (course.trace.due splice member).markersAll_target settings.parenthesize
  · intro round member
    exact (course.passes.trace_of_mem round member).markersAll_final

end Fragment

end Headfirst
