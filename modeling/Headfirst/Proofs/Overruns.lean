import Headfirst.Proofs.Accounts
import Headfirst.Proofs.Limits

namespace Headfirst

open Headfirst.Tree

/-! What a run counts against what it splices.

A splice is counted first, then held against the bound, and only then made.  So the count of a run
that stops at a splice beyond its bound includes that one, which is not made.  Whatever else ends a
run, it counts the splices it has made. -/

/-- Whether it is a splice too many at which the work stops. -/
def Fault.isOverrun : Fault → Bool
  | .tooManySplices _ => true
  | _ => false

theorem Fault.isOverrun_eq_false {fault : Fault} (unlimited : fault.isLimit = false) :
    fault.isOverrun = false := by
  cases fault with
  | tooManySplices bound => contradiction
  | _ => rfl

namespace Run

/-- Whether the run stops at a splice beyond its bound. -/
def overruns (run : Run) : Bool :=
  run.failure?.any (·.fault.isOverrun)

/-- A run that counts the splices it tells of, all of them within the bound, and where it overruns
the bound that is used up also the one it does not make. -/
structure Counts (settings : Settings) (run : Run) : Prop where
  counted : run.splices = (run.events.filter Event.isSplice).length + run.overruns.toNat
  within : ((run.events.filter Event.isSplice).length : Int) ≤ settings.maxSplices
  spent : run.overruns = true →
    ((run.events.filter Event.isSplice).length : Int) = settings.maxSplices

end Run

namespace Progress

/-- Progress that counts the splices it tells of, and keeps within the bound. -/
structure Counts (settings : Settings) (progress : Progress) : Prop where
  exact : progress.splices = progress.splicesMade.length
  within : (progress.splices : Int) ≤ settings.maxSplices

/-- Progress that has used up the bound and counts one splice more than it tells of. -/
structure Exceeds (settings : Settings) (progress : Progress) : Prop where
  spent : (progress.splicesMade.length : Int) = settings.maxSplices
  exceeded : progress.splices = progress.splicesMade.length + 1

variable {settings : Settings} {progress : Progress}

theorem Counts.of_same {after : Progress} (counts : progress.Counts settings)
    (splices : after.splices = progress.splices) (work : after.work = progress.work) :
    after.Counts settings := by
  refine ⟨?_, by rw [splices]; exact counts.within⟩
  rw [splices, counts.exact, splicesMade, splicesMade, work]

theorem Counts.passDone (counts : progress.Counts settings) (pass splices : Nat) :
    (progress.record [.passDone pass splices]).Counts settings := by
  refine ⟨?_, counts.within⟩
  rw [splices_record, counts.exact]
  simp [splicesMade, Event.isWork, Event.isSplice]

end Progress

/-- Work in which splices are counted as they are made, up to the one at which it may stop. -/
def Outcome.Counts {α : Type} (settings : Settings) : Outcome α → Prop
  | .done _ after => after.Counts settings
  | .stopped failure after =>
      if failure.fault.isOverrun then after.Exceeds settings else after.Counts settings

theorem Outcome.Counts.bind {α β : Type} {settings : Settings} {outcome : Outcome α}
    {next : α → Progress → Outcome β} (first : outcome.Counts settings)
    (second : ∀ value after, outcome = .done value after → after.Counts settings →
      (next value after).Counts settings) :
    (outcome.bind next).Counts settings := by
  cases outcome with
  | done value after => exact second value after rfl first
  | stopped failure after => exact first

namespace Fronting

variable {settings : Settings}

theorem siblings_counts (floor : Nat) (before rest : List Tree) (progress : Progress)
    (counts : progress.Counts settings) :
    (siblings settings floor before rest progress).Counts settings := by
  fun_induction siblings settings floor before rest progress with
  | case1 floor before progress => exact counts
  | case2 floor before tree after progress isMarker site reach recorded failure resolved tolerant ih =>
      refine ih (counts.of_same ?_ ?_)
      · simp [recorded]
      · simp [recorded, Site.events_filter_isWork]
  | case3 floor before tree after progress isMarker site reach recorded failure resolved strict =>
      have unlimited := (Site.resolve_error resolved).1
      rw [Outcome.Counts, Fault.isOverrun_eq_false unlimited]
      exact counts.of_same rfl (by simp [recorded, Site.events_filter_isWork])
  | case4 floor before tree after progress isMarker site reach recorded occurrence resolved counted beyond =>
      -- the splice is counted, and the bound is what was made before it
      have made : counted.splicesMade = progress.splicesMade := by
        simp [counted, recorded, Progress.splicesMade, Site.events_filter_isWork]
      have number : counted.splices = progress.splices + 1 := by simp [counted, recorded]
      have exact := counts.exact
      have within := counts.within
      refine ⟨?_, ?_⟩
      · rw [made]
        omega
      · rw [made, number, exact]
  | case5 floor before tree after progress isMarker site reach recorded occurrence resolved counted within replacement ih =>
      refine ih ⟨?_, ?_⟩
      · simp [counted, recorded, Progress.splicesMade, Site.events_filter_isWork, Event.isWork,
          Event.isSplice, counts.exact]
      · exact Int.not_lt.mp within
  | case6 floor before tree after progress noMarker ih => exact ih counts

theorem pass_counts (settings : Settings) :
    (∀ trees (progress : Progress), progress.Counts settings →
      (sequence settings trees progress).Counts settings) ∧
    ∀ trees (progress : Progress), progress.Counts settings →
      (below settings trees progress).Counts settings := by
  apply pass_induction
  case scan =>
      intro trees ih progress counts
      rw [sequence_eq]
      refine (siblings_counts 0 [] trees progress counts).bind fun scanned between done counts => ?_
      exact ih scanned (sizeAll_siblings_start done) between counts
  case nil =>
      intro progress counts
      rw [below_nil]
      exact counts
  case leaf =>
      intro token trees ih progress counts
      rw [below_leaf]
      exact (ih progress counts).bind fun result after _ counts => counts
  case group =>
      intro bracket children trees ihInside ihRight progress counts
      rw [below_group]
      refine (ihInside progress counts).bind fun inner between _ counts => ?_
      exact (ihRight between counts).bind fun result after _ counts => counts

theorem fixpoint_counts (span : Span) (pass markers : Nat) (trees : List Tree)
    (progress : Progress) (counts : progress.Counts settings) :
    (fixpoint settings span pass markers trees progress).Counts settings := by
  have passes := (pass_counts settings).1
  fun_induction fixpoint settings span pass markers trees progress with
  | case1 pass markers trees progress spent => exact counts
  | case2 pass markers trees progress room failure after stopped =>
      have made := passes trees progress counts
      rwa [stopped] at made
  | case3 pass markers trees progress room result after done splices recorded none =>
      have made := passes trees progress counts
      rw [done] at made
      exact Progress.Counts.passDone made ..
  | case4 pass markers trees progress room result after done splices recorded remaining some drifted =>
      have made := passes trees progress counts
      rw [done] at made
      exact Progress.Counts.passDone made ..
  | case5 pass markers trees progress room result after done splices recorded remaining some exact none =>
      have made := passes trees progress counts
      rw [done] at made
      exact Progress.Counts.passDone made ..
  | case6 pass markers trees progress room result between done splices recorded remaining some exact more ih =>
      have made := passes trees progress counts
      rw [done] at made
      exact ih (Progress.Counts.passDone made ..)

end Fronting

theorem Splice.filter_isSplice_map (parenthesize : Bool) (splices : List Splice) :
    (splices.map (·.event parenthesize)).filter Event.isSplice =
      splices.map (·.event parenthesize) := by
  rw [List.filter_eq_self]
  intro event member
  obtain ⟨splice, -, rfl⟩ := List.mem_map.mp member
  rfl

/-- The splices among the work of some passes are theirs, in their order. -/
theorem Round.filter_isSplice_events (parenthesize : Bool) (pass : Nat) (rounds : List Round) :
    (events parenthesize pass rounds).filter Event.isSplice =
      (splicesAll rounds).map (·.event parenthesize) := by
  induction rounds generalizing pass with
  | nil => rfl
  | cons round rounds ih =>
      rw [events, splicesAll, List.flatMap_cons, List.map_append, List.filter_append,
        Splice.filter_isSplice_map, List.filter_cons_of_neg (by simp [Event.isSplice]), ih,
        splicesAll]

namespace Fragment

variable {settings : Settings}

/-- A run tells of the splices that it makes, in their order. -/
theorem front_trace (settings : Settings) (fragment : Fragment) :
    ∃ splices final, Trace settings.parenthesize fragment.children splices final ∧
      (fragment.front settings).events.filter Event.isSplice =
        splices.map (·.event settings.parenthesize) ∧
      ∀ result, (fragment.front settings).result = .ok result →
        result = { fragment with children := settle settings final } := by
  obtain ⟨rounds, middle, last, final, course, -, succeeded⟩ := front_course settings fragment
  refine ⟨_, final, course.trace, ?_, fun result ok => (succeeded result ok).2.1⟩
  have work : (fragment.front settings).events.filter Event.isSplice =
      ((fragment.front settings).events.filter Event.isWork).filter Event.isSplice := by
    rw [List.filter_filter]
    refine List.filter_congr fun event _ => ?_
    rw [Bool.eq_iff_iff, Bool.and_eq_true]
    exact ⟨fun splice => ⟨splice, Event.isWork_of_isSplice splice⟩, And.left⟩
  rw [work, course.reported, List.filter_append, Round.filter_isSplice_events,
    Splice.filter_isSplice_map, List.map_append]

theorem counts_stopped {failure : Failure} {after : Progress}
    (counts : (Outcome.stopped failure after : Outcome Unit).Counts settings) :
    (stopped failure after).Counts settings := by
  have told : (stopped failure after).events.filter Event.isSplice = after.splicesMade :=
    Progress.filter_isSplice_closed rfl
  have overruns : (stopped failure after).overruns = failure.fault.isOverrun := rfl
  have counted : (stopped failure after).splices = after.splices := rfl
  rw [Outcome.Counts] at counts
  split at counts
  · rename_i overrun
    refine ⟨?_, ?_, fun _ => ?_⟩
    · rw [counted, told, overruns, overrun, counts.exceeded]
      rfl
    · rw [told]
      exact Int.le_of_eq counts.spent
    · rw [told]
      exact counts.spent
  · rename_i other
    have exact := counts.exact
    refine ⟨?_, ?_, fun overrun => absurd (overruns.symm.trans overrun) other⟩
    · rw [counted, told, overruns, Bool.eq_false_iff.mpr other, exact]
      rfl
    · rw [told, ← exact]
      exact counts.within

/-- Every run counts what it splices, and one more where it overruns its bound. -/
theorem front_counts (some : 0 ≤ settings.maxSplices) (fragment : Fragment) :
    (fragment.front settings).Counts settings := by
  by_cases deep : Fronting.maxDepth < fragment.tree.depth
  · rw [front_tooDeep deep]
    exact counts_stopped ⟨rfl, some⟩
  · have shallow := Nat.not_lt.mp deep
    have counts := Fronting.fixpoint_counts fragment.tree.span 0 (markersAll fragment.children)
      fragment.children fragment.begun ⟨rfl, some⟩
    cases loop : Fronting.fixpoint settings fragment.tree.span 0 (markersAll fragment.children)
        fragment.children fragment.begun with
    | stopped failure after =>
        rw [loop] at counts
        rw [front_of_stopped shallow loop]
        exact counts_stopped counts
    | done value after =>
        obtain ⟨trees, number⟩ := value
        rw [loop] at counts
        rw [front_of_done shallow loop]
        have told : ∀ event : Event, event.isWork = false →
            (after.events.reverse ++ [event]).filter Event.isSplice = after.splicesMade :=
          fun event idle => Progress.filter_isSplice_closed idle
        refine ⟨?_, ?_, nofun⟩
        · rw [told _ rfl]
          exact counts.exact
        · rw [told _ rfl, ← counts.exact]
          exact counts.within

/-- A run makes its splices on the working tree, never more of them than its bound.  It counts
each of them, and where it overruns the bound, which is then used up, one more: the splice at which
it stops is counted, but not made.  So it counts more than its bound exactly if it overruns it. -/
theorem front_counts_splices (some : 0 ≤ settings.maxSplices) (fragment : Fragment) :
    let run := fragment.front settings
    ∃ splices final, Trace settings.parenthesize fragment.children splices final ∧
      run.events.filter Event.isSplice = splices.map (·.event settings.parenthesize) ∧
      (∀ result, run.result = .ok result →
        result = { fragment with children := settle settings final }) ∧
      run.splices = splices.length + run.overruns.toNat ∧
      (splices.length : Int) ≤ settings.maxSplices ∧
      (run.overruns = true → (splices.length : Int) = settings.maxSplices) ∧
      ((run.splices : Int) ≤ settings.maxSplices ↔ run.overruns = false) := by
  intro run
  obtain ⟨splices, final, trace, told, succeeded⟩ := front_trace settings fragment
  have counts : run.Counts settings := front_counts some fragment
  have length : (run.events.filter Event.isSplice).length = splices.length := by
    rw [told, List.length_map]
  have counted : run.splices = splices.length + run.overruns.toNat := length ▸ counts.counted
  have within : (splices.length : Int) ≤ settings.maxSplices := length ▸ counts.within
  have spent : run.overruns = true → (splices.length : Int) = settings.maxSplices :=
    length ▸ counts.spent
  refine ⟨splices, final, trace, told, succeeded, counted, within, spent, ?_⟩
  cases overruns : run.overruns with
  | false => simpa [counted, overruns] using within
  | true =>
      have all := spent overruns
      rw [overruns, Bool.toNat_true] at counted
      simp only [Bool.true_eq_false, iff_false]
      omega

/-- With a bound of one, `x::(match) {}::(&)` makes the first of its two splices and counts both. -/
theorem front_counts_splices_arms_reference :
    ∃ fragment, read "x::(match) {}::(&)" "main.rs" = .ok fragment ∧
      (fragment.front { maxSplices := 1 }).overruns = true ∧
      (fragment.front { maxSplices := 1 }).splices = 2 ∧
      ∃ splice final, Trace true fragment.children [splice] final := by
  have run : (read "x::(match) {}::(&)" "main.rs").toOption.any fun fragment =>
      (fragment.front { maxSplices := 1 }).overruns := by
    decide +kernel
  obtain ⟨fragment, lexed, overruns⟩ := exists_ok_of_any run
  obtain ⟨splices, final, trace, -, -, counted, -, spent, -⟩ :=
    @front_counts_splices { maxSplices := 1 } (by decide) fragment
  have one : splices.length = 1 := Int.ofNat.inj (spent overruns)
  obtain ⟨splice, rfl⟩ := List.length_eq_one_iff.mp one
  refine ⟨fragment, lexed, overruns, ?_, splice, final, trace⟩
  rw [counted, overruns]
  rfl

/-- With a bound of zero a run makes no splice, and counts one. -/
theorem front_counts_unmade :
    ∃ fragment, read "x::(&)" "main.rs" = .ok fragment ∧
      (fragment.front { maxSplices := 0 }).splices = 1 ∧
      (fragment.front { maxSplices := 0 }).events.filter Event.isSplice = [] := by
  have run : (read "x::(&)" "main.rs").toOption.any fun fragment =>
      (fragment.front { maxSplices := 0 }).splices == 1 &&
        ((fragment.front { maxSplices := 0 }).events.filter Event.isSplice).isEmpty := by
    decide +kernel
  obtain ⟨fragment, lexed, run⟩ := exists_ok_of_any run
  simp only [Bool.and_eq_true, beq_iff_eq, List.isEmpty_iff] at run
  exact ⟨fragment, lexed, run⟩

end Fragment

end Headfirst
