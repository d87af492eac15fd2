import Headfirst.Proofs.Expanding
import Headfirst.Proofs.Sweeps

namespace Headfirst

open Headfirst.Tree

/-! What the events of a run and of an expansion tell of the work.

The events name each splice and each tolerated failure once, when it comes up.  An expansion tells
what its runs tell, one after another, the run that fails included. -/

namespace Event

/-- The failure of an occurrence that is left untouched. -/
def tolerated? : Event → Option Failure
  | .tolerated failure => some failure
  | _ => none

end Event

theorem Site.filterMap_tolerated_events (site : Site) (reach : Nat) :
    (site.events reach).filterMap Event.tolerated? = [] := by
  have body (head : Head) (group : Tree) (after : List Tree) :
      (bodyEvents head group after).filterMap Event.tolerated? = [] := by
    unfold bodyEvents
    split <;> rfl
  have word (word : Option String) (construct : Construct) :
      (word.toList.map (.headParsed · construct)).filterMap Event.tolerated? = [] := by
    cases word <;> rfl
  have head (after : List Tree) : (headEvents after).filterMap Event.tolerated? = [] := by
    fun_cases headEvents after with
    | case1 | case2 => rfl
    | case3 group after head parsed => rw [List.filterMap_append, body, word, List.append_nil]
  fun_cases events site reach with
  | case1 => rfl
  | case2 operand taken marker => exact head site.after

namespace Progress

variable {progress : Progress}

/-- The failures that the events tell of, in the order in which they came up. -/
def told (progress : Progress) : List Failure :=
  progress.events.reverse.filterMap Event.tolerated?

@[simp] theorem told_record (events : List Event) :
    (progress.record events).told = progress.told ++ events.filterMap Event.tolerated? := by
  simp [told, record]

theorem told_record_of_none {event : Event} (aside : event.tolerated? = none) :
    (progress.record [event]).told = progress.told := by
  simp [aside]

@[simp] theorem told_count : progress.count.told = progress.told := rfl

@[simp] theorem tolerated_count : progress.count.tolerated = progress.tolerated := rfl

theorem told_closed {event : Event} (aside : event.tolerated? = none) :
    (progress.events.reverse ++ [event]).filterMap Event.tolerated? = progress.told := by
  simp [told, aside]

theorem told_tolerate (same : progress.told = progress.tolerated) (failure : Failure) :
    (progress.tolerate failure).told = (progress.tolerate failure).tolerated := by
  unfold tolerate
  split
  · exact same
  · rw [told_record]
    simpa [told, record, Event.tolerated?] using same

end Progress

/-- Work that keeps the failures it tells of, and none of them if it is strict. -/
def Telling (settings : Settings) : Progression := fun _ before _ after =>
  (before.told = before.tolerated → after.told = after.tolerated) ∧
    (settings.tolerant = false → after.tolerated = before.tolerated)

theorem telling_composes (settings : Settings) : (Telling settings).Composes where
  refl trees progress := ⟨id, fun _ => rfl⟩
  passDone trees progress pass splices := by
    refine ⟨fun same => ?_, fun _ => rfl⟩
    rwa [Progress.told_record_of_none rfl]
  trans first second :=
    ⟨second.1 ∘ first.1, fun strict => (second.2 strict).trans (first.2 strict)⟩

theorem Fronting.siblings_telling (settings : Settings) (floor : Nat) (before rest : List Tree)
    (progress : Progress) {start : List Tree} {place : List Tree → List Tree} :
    (siblings settings floor before rest progress).Leads (Telling settings) start progress place := by
  have composes := telling_composes settings
  fun_induction siblings settings floor before rest progress with
  | case1 floor before progress => exact ⟨id, fun _ => rfl⟩
  | case2 floor before tree after progress isMarker site reach recorded failure resolved tolerant ih =>
      have left : Telling settings start progress start (recorded.tolerate failure) := by
        refine ⟨fun same => Progress.told_tolerate ?_ failure, ?_⟩
        · simpa [recorded, Site.filterMap_tolerated_events] using same
        · simp [tolerant]
      exact ih.after composes left
  | case3 floor before tree after progress isMarker site reach recorded failure resolved strict =>
      refine ⟨start, fun same => ?_, fun _ => rfl⟩
      simpa [recorded, Site.filterMap_tolerated_events] using same
  | case4 floor before tree after progress isMarker site reach recorded occurrence resolved counted beyond =>
      refine ⟨start, fun same => ?_, fun _ => rfl⟩
      simpa [counted, recorded, Site.filterMap_tolerated_events] using same
  | case5 floor before tree after progress isMarker site reach recorded occurrence resolved counted within replacement ih =>
      have made : Telling settings start progress start
          (counted.record [.spliced occurrence replacement]) := by
        refine ⟨fun same => ?_, fun _ => rfl⟩
        rw [Progress.told_record_of_none rfl]
        simpa [counted, recorded, Site.filterMap_tolerated_events] using same
      exact ih.after composes made
  | case6 floor before tree after progress noMarker ih => exact ih

namespace Fragment

variable {settings : Settings} {fragment result : Fragment}

/-- A run tells of each failure that it tolerates, once and in order, and a strict run of none. -/
theorem front_told (settings : Settings) (fragment : Fragment) :
    (fragment.front settings).events.filterMap Event.tolerated? =
        (fragment.front settings).tolerated ∧
      (settings.tolerant = false → (fragment.front settings).tolerated = []) := by
  by_cases deep : Fronting.maxDepth < fragment.tree.depth
  · rw [front_tooDeep deep]
    exact ⟨rfl, fun _ => rfl⟩
  · have shallow := Nat.not_lt.mp deep
    have leads := Fronting.fixpoint_leads (telling_composes settings)
      (fun trees progress frames => Fronting.siblings_telling settings 0 [] trees progress)
      fragment.tree.span 0 (markersAll fragment.children) fragment.children fragment.begun
    cases loop : Fronting.fixpoint settings fragment.tree.span 0 (markersAll fragment.children)
        fragment.children fragment.begun with
    | stopped failure after =>
        rw [loop] at leads
        obtain ⟨_, tells, strict⟩ := leads
        rw [front_of_stopped shallow loop]
        exact ⟨(Progress.told_closed rfl).trans (tells rfl), strict⟩
    | done value after =>
        obtain ⟨trees, number⟩ := value
        rw [loop] at leads
        obtain ⟨tells, strict⟩ := leads
        rw [front_of_done shallow loop]
        exact ⟨(Progress.told_closed rfl).trans (tells rfl), strict⟩

theorem Round.countP_isSplice_events (parenthesize : Bool) (pass : Nat) (rounds : List Round) :
    (Round.events parenthesize pass rounds).countP Event.isSplice =
      (Round.splicesAll rounds).length := by
  induction rounds generalizing pass with
  | nil => rfl
  | cons round rounds ih =>
      have own : (round.splices.map (·.event parenthesize)).countP Event.isSplice =
          round.splices.length := by
        rw [List.countP_eq_length.mpr, List.length_map]
        intro event member
        obtain ⟨splice, -, rfl⟩ := List.mem_map.mp member
        rfl
      rw [Round.events, Round.splicesAll, List.flatMap_cons, List.countP_append, own,
        List.countP_cons_of_neg (by simp [Event.isSplice]), ih, List.length_append]
      rfl

/-- A run that succeeds tells of as many splices as it counts. -/
theorem front_countP_isSplice (succeeded : (fragment.front settings).result = .ok result) :
    (fragment.front settings).events.countP Event.isSplice = (fragment.front settings).splices := by
  obtain ⟨rounds, middle, last, final, course, -, ok⟩ := front_course settings fragment
  obtain ⟨rfl, -, counted, -⟩ := ok result succeeded
  have work : (fragment.front settings).events.countP Event.isSplice =
      ((fragment.front settings).events.filter Event.isWork).countP Event.isSplice := by
    rw [List.countP_filter]
    refine List.countP_congr fun event _ => ?_
    simpa using Event.isWork_of_isSplice
  rw [work, course.reported, List.map_nil, List.append_nil, Round.countP_isSplice_events, counted]

end Fragment

/-- With ample calls the argument of an invocation is run as it would be alone. -/
theorem Invocation.run_of_whole {settings : Settings} {macroName : String} {invocation : Invocation}
    {tally : Tally} {room : Nat} (enough : Expansion.ample invocation.argument ≤ room)
    (whole : (Expansion.expand settings macroName room invocation.argument tally).halt = none) :
    (Expansion.argument invocation.bracket
      (Expansion.expand settings macroName room invocation.argument tally).trees).frontWithin
        (room + 1) settings = invocation.run settings macroName := by
  have follows := Expansion.expand_follows _ _ _ (.inr whole)
  have passes := follows.halts
  rw [whole, Expansion.findSome?_haltOf, eq_comm, Option.map_eq_none_iff,
    List.findSome?_map, List.findSome?_eq_none_iff] at passes
  have alone := Invocation.expanded_eq fun inner member =>
    Run.failure?_eq_none.mp (passes inner member)
  have room : Stack.copying * Fronting.maxDepth ≤ room + 1 := by
    unfold Expansion.ample at enough
    omega
  rw [follows.leaves whole, ← alone, Fragment.frontWithin_of_le room]
  rfl

/-- What is told beside the names of the invocations when some runs are made: what they tell.  Of
some of them is kept what they tolerate. -/
structure Tally.Tells (macroName : String) (runs kept : List Run) (before after : Tally) :
    Prop where
  events : ∀ kind : Event → Bool, (∀ loc, kind (.expanded macroName loc) = false) →
    after.events.reverse.filter kind =
      before.events.reverse.filter kind ++ runs.flatMap (·.events.filter kind)
  tolerated : after.tolerated = before.tolerated ++ kept.flatMap (·.tolerated)

namespace Tally.Tells

variable {macroName : String} {runs later kept others : List Run} {before middle after : Tally}

theorem nothing (tally : Tally) : Tells macroName [] [] tally tally :=
  ⟨fun kind _ => by simp, by simp⟩

theorem append (first : Tells macroName runs kept before middle)
    (second : Tells macroName later others middle after) :
    Tells macroName (runs ++ later) (kept ++ others) before after := by
  constructor
  · intro kind aside
    rw [second.events kind aside, first.events kind aside, List.flatMap_append, List.append_assoc]
  · rw [second.tolerated, first.tolerated, List.flatMap_append, List.append_assoc]

/-- A run that has only told of itself: nothing of it is kept. -/
theorem addRun (tally : Tally) (run : Run) :
    Tells macroName [run] [] tally (Expansion.Tally.addRun tally run) :=
  ⟨fun kind _ => by simp [Expansion.Tally.addRun], by simp [Expansion.Tally.addRun]⟩

/-- Once a run has told of itself, what is kept of it is what it tolerates. -/
theorem complete (tally : Tally) (run : Run) (loc : Loc) :
    Tells macroName [run] [run] tally
      (Expansion.Tally.complete (Expansion.Tally.addRun tally run) run macroName loc) := by
  constructor
  · intro kind aside
    simp [Expansion.Tally.complete, Expansion.Tally.addRun, aside]
  · simp [Expansion.Tally.complete, Expansion.Tally.addRun]

end Tally.Tells

/-- What an expansion tells: what its runs tell, up to the first that fails.  It keeps what they
tolerate, but for the one that fails. -/
structure Expansion.Tells (macroName : String) (runs : List Run) (before : Tally)
    (expansion : Expansion) : Prop where
  whole : expansion.halt = none →
    (∀ run ∈ runs, run.failure? = none) ∧ Tally.Tells macroName runs runs before expansion.tally
  stopped : ∀ halt, expansion.halt = some halt →
    ∃ earlier last failure, earlier ++ [last] <+: runs ∧ (∀ run ∈ earlier, run.failure? = none) ∧
      last.failure? = some failure ∧ halt = .refused failure ∧
      Tally.Tells macroName (earlier ++ [last]) earlier before expansion.tally

namespace Expansion

variable {macroName : String} {runs later : List Run} {trees : List Tree} {before middle : Tally}
  {expansion : Expansion}

/-- The runs that are made, and those of which something is kept. -/
theorem Tells.exists_ran (tells : expansion.Tells macroName runs before) :
    ∃ ran kept, ran <+: runs ∧ kept <+: ran ∧
      Tally.Tells macroName ran kept before expansion.tally := by
  cases halted : expansion.halt with
  | none => exact ⟨runs, runs, List.prefix_rfl, List.prefix_rfl, (tells.whole halted).2⟩
  | some halt =>
      obtain ⟨earlier, last, failure, within, -, -, -, told⟩ := tells.stopped halt halted
      exact ⟨_, earlier, within, List.prefix_append .., told⟩

theorem Tells.nothing (tally : Tally) : Tells macroName [] tally ⟨trees, none, tally⟩ :=
  ⟨fun _ => ⟨by simp, .nothing tally⟩, by simp⟩

/-- A run that fails has told of itself, but nothing of it is kept. -/
theorem Tells.fail {last : Run} {failure : Failure} (succeed : ∀ run ∈ runs, run.failure? = none)
    (told : Tally.Tells macroName runs runs before middle) (fails : last.failure? = some failure)
    (later : List Run) :
    Tells macroName (runs ++ [last] ++ later) before
      ⟨trees, some (.refused failure), Expansion.Tally.addRun middle last⟩ := by
  have all := told.append (.addRun middle last)
  rw [List.append_nil] at all
  refine ⟨by simp, ?_⟩
  rintro _ ⟨⟩
  exact ⟨runs, last, failure, List.prefix_append .., succeed, fails, rfl, all⟩

/-- An expansion that stops within the first of its runs. -/
theorem Tells.interrupt {halt : Halt Failure} (tells : expansion.Tells macroName runs before)
    (halted : expansion.halt = some halt) (later : List Run) :
    Tells macroName (runs ++ later) before ⟨trees, some halt, expansion.tally⟩ := by
  refine ⟨by simp, ?_⟩
  rintro _ ⟨⟩
  obtain ⟨earlier, last, failure, within, told⟩ := tells.stopped halt halted
  exact ⟨earlier, last, failure, within.trans (List.prefix_append ..), told⟩

theorem Tells.prepend (tells : expansion.Tells macroName later middle)
    (succeed : ∀ run ∈ runs, run.failure? = none)
    (first : Tally.Tells macroName runs runs before middle) :
    (after trees expansion).Tells macroName (runs ++ later) before := by
  constructor
  · intro none
    obtain ⟨others, told⟩ := tells.whole none
    exact ⟨List.forall_mem_append.mpr ⟨succeed, others⟩, first.append told⟩
  · intro halt halted
    obtain ⟨earlier, last, failure, within, others, fails, same, told⟩ := tells.stopped halt halted
    refine ⟨runs ++ earlier, last, failure, ?_, List.forall_mem_append.mpr ⟨succeed, others⟩, fails,
      same, ?_⟩
    · rw [List.append_assoc]
      exact (List.prefix_append_right_inj runs).mpr within
    · rw [List.append_assoc]
      exact first.append told

theorem expand_tells (settings : Settings) (macroName : String) (trees : List Tree) :
    ∀ room tally, ample trees ≤ room → (expand settings macroName room trees tally).Tells macroName
      ((Invocation.all macroName trees).map (·.run settings macroName)) tally := by
  induction trees using Invocation.induction macroName with
  | nil =>
      intro room tally _
      rw [expand_nil, Invocation.all_nil]
      exact .nothing tally
  | token token rest none later =>
      intro room tally enough
      have tells := later room tally (ample_leaf enough)
      rw [expand_token none, Invocation.all_token none]
      exact ⟨tells.whole, tells.stopped⟩
  | group bracket children rest within later =>
      intro room tally enough
      obtain ⟨fewer, rfl, enoughInside, enoughBehind⟩ := ample_group enough
      have inside := within fewer tally enoughInside
      rw [expand_group, enter, Invocation.all_group, List.map_append]
      simp only
      cases halted : (expand settings macroName fewer children tally).halt with
      | some halt => exact inside.interrupt halted _
      | none =>
          obtain ⟨succeed, told⟩ := inside.whole halted
          exact (later _ _ enoughBehind).prepend succeed told
  | invocation invocation rest calls within later =>
      intro room tally enough
      obtain ⟨fewer, rfl, enoughInside, enoughBehind⟩ := ample_call enough
      have inside := within fewer tally enoughInside
      rw [Invocation.all_call calls, List.map_append, List.map_cons, expand_call calls, enter]
      simp only
      cases halted : (expand settings macroName fewer invocation.argument tally).halt with
      | some halt => exact inside.interrupt halted _
      | none =>
          obtain ⟨succeed, told⟩ := inside.whole halted
          rw [Invocation.run_of_whole enoughInside halted, List.append_cons]
          cases ended : (invocation.run settings macroName).result with
          | error failure => exact .fail succeed told (by rw [Run.failure?, ended]) _
          | ok fragment =>
              have succeeds : (invocation.run settings macroName).failure? = none :=
                Run.failure?_eq_none.mpr ⟨fragment, ended⟩
              refine (later _ _ enoughBehind).prepend ?_ (told.append (.complete _ _ _))
              exact List.forall_mem_append.mpr ⟨succeed, by simp [succeeds]⟩

end Expansion

end Headfirst
