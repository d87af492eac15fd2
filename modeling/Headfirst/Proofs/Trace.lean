import Headfirst.Fronting.Fixpoint
import Headfirst.Proofs.Faults
import Headfirst.Proofs.Induction
import Headfirst.Proofs.Splice

namespace Headfirst

open Headfirst.Tree

/-! The splices of a run, one after another, each as a change of the whole working tree. -/

/-- An occurrence somewhere in the working tree, about to be spliced. -/
structure Splice where
  frames : List Frame
  site : Site
  occurrence : Occurrence

namespace Splice

def source (splice : Splice) : List Tree :=
  Frame.fill splice.frames splice.site.trees

def target (splice : Splice) (parenthesize : Bool) : List Tree :=
  Frame.fill splice.frames (Site.spliced splice.occurrence parenthesize)

/-- The site has a marker, the occurrence is what the marker resolves to, and the markers
within reach of its operand have been dealt with. -/
def Due (splice : Splice) : Prop :=
  Marker.test splice.site.marker splice.site.after.head? = true ∧
    ∃ reach, Settled reach splice.site.before (some splice.site.marker) ∧
      splice.site.resolve reach = .ok splice.occurrence

/-- A splice decreases the markers of the whole working tree by one. -/
theorem Due.markersAll_target {splice : Splice} (due : splice.Due) (parenthesize : Bool) :
    markersAll (splice.target parenthesize) + 1 = markersAll splice.source := by
  obtain ⟨isMarker, reach, settled, resolved⟩ := due
  have inside := Site.markersAll_spliced isMarker settled resolved parenthesize
  rw [target, source, Frame.markersAll_fill, Frame.markersAll_fill]
  omega

end Splice

inductive Trace (parenthesize : Bool) : List Tree → List Splice → List Tree → Prop where
  | done (trees : List Tree) : Trace parenthesize trees [] trees
  | splice {first : Splice} {later : List Splice} {final : List Tree} (due : first.Due)
      (rest : Trace parenthesize (first.target parenthesize) later final) :
      Trace parenthesize first.source (first :: later) final

namespace Trace

variable {parenthesize : Bool} {start middle final : List Tree} {former later : List Splice}

theorem append (first : Trace parenthesize start former middle)
    (second : Trace parenthesize middle later final) :
    Trace parenthesize start (former ++ later) final := by
  induction first with
  | done => exact second
  | splice due rest ih => exact .splice due (ih second)

theorem due (trace : Trace parenthesize start former final) : ∀ splice ∈ former, splice.Due := by
  induction trace with
  | done => simp
  | splice due rest ih =>
      intro splice member
      rcases List.mem_cons.mp member with rfl | member
      · exact due
      · exact ih splice member

theorem markersAll_final (trace : Trace parenthesize start former final) :
    markersAll final + former.length = markersAll start := by
  induction trace with
  | done => rfl
  | splice due rest ih =>
      have step := due.markersAll_target parenthesize
      rw [List.length_cons]
      omega

end Trace

/-- A property of sequences that depends on what their groups hold only where it holds of that too,
and that no splice destroys. -/
structure Splice.Kept (parenthesize : Bool) (holds : List Tree → Prop) : Prop where
  within : ∀ {before : List Tree} {bracket : Bracket} {trees after : List Tree}, trees ≠ [] →
    holds (before ++ .group bracket trees :: after) →
    holds trees ∧ ∀ others, others ≠ [] → holds others →
      holds (before ++ .group bracket others :: after)
  spliced : ∀ {site : Site} {reach : Nat} {occurrence : Occurrence},
    site.resolve reach = .ok occurrence → holds site.trees →
    holds (Site.spliced occurrence parenthesize)

namespace Splice.Kept

variable {parenthesize : Bool} {holds : List Tree → Prop} {start final : List Tree}
  {splices : List Splice}

theorem fill (kept : Kept parenthesize holds) (frames : List Frame) {trees : List Tree}
    (nonempty : trees ≠ []) (held : holds (Frame.fill frames trees)) :
    holds trees ∧ ∀ others, others ≠ [] → holds others → holds (Frame.fill frames others) := by
  induction frames generalizing trees with
  | nil => exact ⟨held, fun _ _ other => other⟩
  | cons frame frames ih =>
      obtain ⟨level, around⟩ := ih (by simp) held
      obtain ⟨inside, refill⟩ := kept.within nonempty level
      exact ⟨inside, fun others some other => around _ (by simp) (refill others some other)⟩

theorem trace (kept : Kept parenthesize holds) (trace : Trace parenthesize start splices final)
    (held : holds start) : holds final := by
  induction trace with
  | done => exact held
  | @splice first later final due rest ih =>
      obtain ⟨isMarker, reach, settled, resolved⟩ := due
      obtain ⟨inside, refill⟩ := kept.fill first.frames (by simp [Site.trees]) held
      exact ih (refill _ (by simp [Site.spliced]) (kept.spliced resolved inside))

end Splice.Kept

namespace Event

/-- The events that tell what became of the working tree: the splices and the ends of the
passes. -/
def isWork : Event → Bool
  | .spliced .. | .passDone .. => true
  | _ => false

end Event

namespace Splice

def event (parenthesize : Bool) (splice : Splice) : Event :=
  .spliced splice.occurrence (splice.occurrence.replacement parenthesize)

end Splice

namespace Site

/-- Resolving an occurrence is no work yet. -/
theorem events_filter_isWork (site : Site) (reach : Nat) :
    (site.events reach).filter Event.isWork = [] := by
  have body (head : Head) (group : Tree) (after : List Tree) :
      (bodyEvents head group after).filter Event.isWork = [] := by
    unfold bodyEvents
    split <;> rfl
  have word (word : Option String) (construct : Construct) :
      (word.toList.map (.headParsed · construct)).filter Event.isWork = [] := by
    cases word <;> rfl
  have head (after : List Tree) : (headEvents after).filter Event.isWork = [] := by
    unfold headEvents
    split
    · rfl
    · split
      · rfl
      · rw [List.filter_append, body, word, List.append_nil]
  unfold events
  split
  · rfl
  · exact head site.after

end Site

namespace Progress

variable {progress : Progress}

/-- The work done so far, oldest first. -/
def work (progress : Progress) : List Event :=
  progress.events.reverse.filter Event.isWork

@[simp] theorem work_record (events : List Event) :
    (progress.record events).work = progress.work ++ events.filter Event.isWork := by
  simp [work, record]

@[simp] theorem work_tolerate (failure : Failure) :
    (progress.tolerate failure).work = progress.work := by
  unfold tolerate
  split
  · rfl
  · simp [work, record, Event.isWork]

@[simp] theorem work_count : progress.count.work = progress.work := rfl

/-- The event with which a run closes is no work. -/
theorem filter_isWork_closed {event : Event} (idle : event.isWork = false) :
    (progress.events.reverse ++ [event]).filter Event.isWork = progress.work := by
  simp [work, idle]

@[simp] theorem splices_record (events : List Event) :
    (progress.record events).splices = progress.splices := rfl

@[simp] theorem splices_tolerate (failure : Failure) :
    (progress.tolerate failure).splices = progress.splices := by
  unfold tolerate
  split <;> rfl

@[simp] theorem splices_count : progress.count.splices = progress.splices + 1 := rfl

end Progress

/-- Splices that lead from one working tree to another while the progress records them. -/
structure Led (parenthesize : Bool) (start : List Tree) (before : Progress)
    (splices : List Splice) (final : List Tree) (after : Progress) : Prop where
  trace : Trace parenthesize start splices final
  work : after.work = before.work ++ splices.map (·.event parenthesize)

namespace Led

variable {parenthesize : Bool} {start middle final : List Tree}
  {before between after : Progress} {former later : List Splice}

theorem rest (same : after.work = before.work) :
    Led parenthesize start before [] start after :=
  ⟨.done start, by simp [same]⟩

theorem trans (first : Led parenthesize start before former middle between)
    (second : Led parenthesize middle between later final after) :
    Led parenthesize start before (former ++ later) final after :=
  ⟨first.trace.append second.trace, by simp [second.work, first.work]⟩

end Led

/-- A marker somewhere in the working tree that cannot be resolved with all in reach that stands in
front of it. -/
structure Malformed (working : List Tree) (site : Site) (failure : Failure) : Prop where
  stands : ∃ frames, working = Frame.fill frames site.trees
  isMarker : Marker.test site.marker site.after.head? = true
  failed : site.resolve site.before.length = .error failure

/-- What work on the working tree `start` comes to: it is led to the tree that its result
stands for, or, where it stopped, to some tree, by splices that the progress records.  It
stops at a malformed occurrence of that tree or where a splice too many would be made. -/
def Outcome.Follows {α : Type} (settings : Settings) (start : List Tree) (before : Progress)
    (place : α → List Tree) : Outcome α → Prop
  | .done value after =>
      ∃ splices, Led settings.parenthesize start before splices (place value) after ∧
        after.splices = before.splices + splices.length
  | .stopped failure after =>
      ∃ splices final, Led settings.parenthesize start before splices final after ∧
        ((∃ site, Malformed final site failure) ∨
          failure.fault = .tooManySplices settings.maxSplices)

namespace Outcome.Follows

variable {α : Type} {settings : Settings} {start middle : List Tree} {before between : Progress}
  {place : α → List Tree} {outcome : Outcome α} {former : List Splice}

theorem after (first : Led settings.parenthesize start before former middle between)
    (counted : between.splices = before.splices + former.length)
    (second : outcome.Follows settings middle between place) :
    outcome.Follows settings start before place := by
  cases outcome with
  | done value after =>
      obtain ⟨later, led, count⟩ := second
      refine ⟨former ++ later, first.trans led, ?_⟩
      rw [count, counted, List.length_append]
      omega
  | stopped failure after =>
      obtain ⟨later, final, led, fault⟩ := second
      exact ⟨former ++ later, final, first.trans led, fault⟩

theorem of_same (work : between.work = before.work)
    (splices : between.splices = before.splices)
    (second : outcome.Follows settings start between place) :
    outcome.Follows settings start before place :=
  second.after (.rest work) (by simp [splices])

theorem bind {β : Type} {next : α → Progress → Outcome β} {final : β → List Tree}
    (first : outcome.Follows settings start before place)
    (second : ∀ value after, outcome = .done value after →
      (next value after).Follows settings (place value) after final) :
    (outcome.bind next).Follows settings start before final := by
  cases outcome with
  | done value after =>
      obtain ⟨splices, led, counted⟩ := first
      exact (second value after rfl).after led counted
  | stopped failure after => exact first

theorem stopped_of_same {failure : Failure} (same : between.work = before.work)
    (fault : (∃ site, Malformed start site failure) ∨
      failure.fault = .tooManySplices settings.maxSplices) :
    (Outcome.stopped failure between : Outcome α).Follows settings start before place :=
  ⟨[], start, .rest same, fault⟩

end Outcome.Follows

end Headfirst
