import Headfirst.Proofs.Passes

namespace Headfirst

open Headfirst.Tree

/-! A run as the sweeps over its sequences: each scan from its start, with the occurrences it
leaves untouched and those it splices, in their order. -/

/-- A relation between two working trees with the progress made on each. -/
abbrev Progression := List Tree → Progress → List Tree → Progress → Prop

/-- What can be shown of a run by showing it of its scans: it holds where nothing happens
and at the end of a pass, and of work that is done in two parts. -/
structure Progression.Composes (related : Progression) : Prop where
  refl : ∀ trees progress, related trees progress trees progress
  passDone : ∀ trees progress pass splices,
    related trees progress trees (progress.record [.passDone pass splices])
  trans : ∀ {start middle final before between after}, related start before middle between →
    related middle between final after → related start before final after

/-- Work that goes from `start` to the tree its result stands for, or, where it stops, to
some tree. -/
def Outcome.Leads {α : Type} (related : Progression) (start : List Tree) (before : Progress)
    (place : α → List Tree) : Outcome α → Prop
  | .done value after => related start before (place value) after
  | .stopped _ after => ∃ final, related start before final after

namespace Outcome.Leads

variable {α β : Type} {related : Progression} {start middle : List Tree}
  {before between : Progress} {place : α → List Tree} {outcome : Outcome α}

theorem after (composes : related.Composes) (first : related start before middle between)
    (second : outcome.Leads related middle between place) :
    outcome.Leads related start before place := by
  cases outcome with
  | done value after => exact composes.trans first second
  | stopped failure after =>
      obtain ⟨final, later⟩ := second
      exact ⟨final, composes.trans first later⟩

theorem bind (composes : related.Composes) {next : α → Progress → Outcome β}
    {final : β → List Tree} (first : outcome.Leads related start before place)
    (second : ∀ value after, outcome = .done value after →
      (next value after).Leads related (place value) after final) :
    (outcome.bind next).Leads related start before final := by
  cases outcome with
  | done value after => exact (second value after rfl).after composes first
  | stopped failure after => exact first

end Outcome.Leads

namespace Fronting

variable {settings : Settings} {related : Progression}

/-- What holds of the scan of each sequence holds of a pass. -/
theorem pass_leads (composes : related.Composes)
    (scans : ∀ trees progress frames,
      (siblings settings 0 [] trees progress).Leads related (Frame.fill frames trees) progress
        (Frame.fill frames)) :
    (∀ trees progress frames,
      (sequence settings trees progress).Leads related (Frame.fill frames trees) progress
        (Frame.fill frames)) ∧
    ∀ trees progress frames left,
      (below settings trees progress).Leads related (Frame.fill frames (left ++ trees)) progress
        fun done => Frame.fill frames (left ++ done) := by
  apply pass_induction
  case scan =>
      intro trees ih progress frames
      rw [sequence_eq]
      refine (scans trees progress frames).bind composes ?_
      intro scanned between done
      have smaller := sizeAll_siblings_start done
      exact ih scanned smaller between frames []
  case nil =>
      intro progress frames left
      rw [below_nil]
      exact composes.refl _ _
  case leaf =>
      intro token trees ih progress frames left
      have right := ih progress frames (left ++ [.leaf token])
      rw [List.append_assoc] at right
      rw [below_leaf]
      refine right.bind composes ?_
      intro result after done
      rw [List.append_assoc]
      exact composes.refl _ _
  case group =>
      intro bracket children trees ihInside ihRight progress frames left
      have inside := ihInside progress (⟨left, bracket, trees⟩ :: frames)
      rw [below_group]
      refine inside.bind composes ?_
      intro inner between done
      have right := ihRight between frames (left ++ [.group bracket inner])
      rw [List.append_assoc] at right
      refine right.bind composes ?_
      intro result after finished
      rw [List.append_assoc]
      exact composes.refl _ _

theorem fixpoint_leads (composes : related.Composes)
    (scans : ∀ trees progress frames,
      (siblings settings 0 [] trees progress).Leads related (Frame.fill frames trees) progress
        (Frame.fill frames))
    (span : Span) (pass markers : Nat) (trees : List Tree) (progress : Progress) :
    (fixpoint settings span pass markers trees progress).Leads related trees progress
      Prod.fst := by
  have passes (trees : List Tree) (progress : Progress) :
      (sequence settings trees progress).Leads related trees progress id :=
    (pass_leads composes scans).1 trees progress []
  fun_induction fixpoint settings span pass markers trees progress with
  | case1 pass markers trees progress spent => exact ⟨_, composes.refl _ _⟩
  | case2 pass markers trees progress room failure after stopped =>
      have made := passes trees progress
      rw [stopped] at made
      exact made
  | case3 pass markers trees progress room result after done splices recorded none =>
      have made := passes trees progress
      rw [done] at made
      exact composes.trans made (composes.passDone ..)
  | case4 pass markers trees progress room result after done splices recorded remaining some drifted =>
      have made := passes trees progress
      rw [done] at made
      exact ⟨_, composes.trans made (composes.passDone ..)⟩
  | case5 pass markers trees progress room result after done splices recorded remaining some exact none =>
      have made := passes trees progress
      rw [done] at made
      exact composes.trans made (composes.passDone ..)
  | case6 pass markers trees progress room result between done splices recorded remaining some exact more ih =>
      have made := passes trees progress
      rw [done] at made
      exact ih.after composes (composes.trans made (composes.passDone ..))

end Fronting

/-- What holds of the scan of each sequence holds of a run. -/
theorem Fragment.front_leads {settings : Settings} {related : Progression}
    (composes : related.Composes)
    (scans : ∀ trees progress frames,
      (Fronting.siblings settings 0 [] trees progress).Leads related (Frame.fill frames trees)
        progress (Frame.fill frames))
    (fragment : Fragment) :
    ∃ final after, related fragment.children fragment.begun final after ∧
      (fragment.front settings).tolerated = after.tolerated ∧
      (fragment.front settings).events.filter Event.isWork = after.work ∧
      ∀ result, (fragment.front settings).result = .ok result →
        result = { fragment with children := settle settings final } := by
  by_cases deep : Fronting.maxDepth < fragment.tree.depth
  · rw [front_tooDeep deep]
    refine ⟨_, _, composes.refl _ _, rfl, rfl, ?_⟩
    intro result succeeded
    contradiction
  · have shallow := Nat.not_lt.mp deep
    have leads := Fronting.fixpoint_leads composes scans fragment.tree.span 0
      (markersAll fragment.children) fragment.children fragment.begun
    cases loop : Fronting.fixpoint settings fragment.tree.span 0 (markersAll fragment.children)
        fragment.children fragment.begun with
    | stopped failure after =>
        rw [loop] at leads
        obtain ⟨final, led⟩ := leads
        rw [front_of_stopped shallow loop]
        refine ⟨final, after, led, rfl, Progress.filter_isWork_closed rfl, ?_⟩
        intro result succeeded
        contradiction
    | done value after =>
        obtain ⟨trees, number⟩ := value
        rw [loop] at leads
        rw [front_of_done shallow loop]
        refine ⟨trees, after, leads, rfl, Progress.filter_isWork_closed rfl, ?_⟩
        intro result succeeded
        cases succeeded
        rfl

/-! The scan of a single sequence. -/

/-- Where the scan of a sequence stands: an operand does not go below the index `floor`,
`before` has been dealt with, nearest tree first, and `rest` has not. -/
structure Stand where
  floor : Nat
  before : List Tree
  rest : List Tree

namespace Stand

def start (trees : List Tree) : Stand :=
  ⟨0, [], trees⟩

def trees (stand : Stand) : List Tree :=
  stand.before.reverse ++ stand.rest

end Stand

/-- What a scan does at a marker: the occurrence is left untouched, or it is spliced. -/
inductive Move where
  | left (site : Site) (failure : Failure)
  | spliced (site : Site) (occurrence : Occurrence)

namespace Move

def site : Move → Site
  | left site _ => site
  | spliced site _ => site

def failure? : Move → Option Failure
  | left _ failure => some failure
  | spliced .. => none

def event? (parenthesize : Bool) : Move → Option Event
  | left .. => none
  | spliced _ occurrence => some (.spliced occurrence (occurrence.replacement parenthesize))

end Move

/-- The moves with which a scan gets from one place to another. -/
inductive Sweep (parenthesize : Bool) : Stand → List Move → Stand → Prop where
  | rest (stand : Stand) : Sweep parenthesize stand [] stand
  | skip {floor : Nat} {before after : List Tree} {tree : Tree} {moves : List Move} {last : Stand}
      (noMarker : Marker.test tree after.head? = false)
      (later : Sweep parenthesize ⟨floor, tree :: before, after⟩ moves last) :
      Sweep parenthesize ⟨floor, before, tree :: after⟩ moves last
  | leave {floor : Nat} {before after : List Tree} {tree : Tree} {failure : Failure}
      {moves : List Move} {last : Stand} (isMarker : Marker.test tree after.head? = true)
      (failed : Site.resolve ⟨before, tree, after⟩ (before.length - floor) = .error failure)
      (later : Sweep parenthesize
        ⟨Fronting.untouchedEnd before.length after, tree :: before, after⟩ moves last) :
      Sweep parenthesize ⟨floor, before, tree :: after⟩
        (.left ⟨before, tree, after⟩ failure :: moves) last
  | splice {floor : Nat} {before after : List Tree} {tree : Tree} {occurrence : Occurrence}
      {moves : List Move} {last : Stand} (isMarker : Marker.test tree after.head? = true)
      (resolved : Site.resolve ⟨before, tree, after⟩ (before.length - floor) = .ok occurrence)
      (later : Sweep parenthesize
        ⟨floor, occurrence.replacement parenthesize :: occurrence.before, occurrence.after⟩
        moves last) :
      Sweep parenthesize ⟨floor, before, tree :: after⟩
        (.spliced ⟨before, tree, after⟩ occurrence :: moves) last

/-- The sweep over a sequence of the working tree, as far as it got. -/
structure Visit where
  frames : List Frame
  trees : List Tree
  moves : List Move
  last : Stand

namespace Visit

def source (visit : Visit) : List Tree :=
  Frame.fill visit.frames visit.trees

def target (visit : Visit) : List Tree :=
  Frame.fill visit.frames visit.last.trees

end Visit

/-- Sweeps, each over a whole sequence of the working tree that the one before has left. -/
inductive Tour (parenthesize : Bool) : List Tree → List Visit → List Tree → Prop where
  | done (trees : List Tree) : Tour parenthesize trees [] trees
  | visit {first : Visit} {later : List Visit} {final : List Tree}
      (sweep : Sweep parenthesize (.start first.trees) first.moves first.last)
      (rest : Tour parenthesize first.target later final) :
      Tour parenthesize first.source (first :: later) final

namespace Tour

variable {parenthesize : Bool} {start middle final : List Tree} {former later : List Visit}

theorem append (first : Tour parenthesize start former middle)
    (second : Tour parenthesize middle later final) :
    Tour parenthesize start (former ++ later) final := by
  induction first with
  | done => exact second
  | visit sweep rest ih => exact .visit sweep (ih second)

theorem sweep_of_mem (tour : Tour parenthesize start former final) :
    ∀ visit ∈ former, Sweep parenthesize (.start visit.trees) visit.moves visit.last := by
  induction tour with
  | done => simp
  | visit sweep rest ih =>
      intro visit member
      rcases List.mem_cons.mp member with rfl | member
      · exact sweep
      · exact ih visit member

end Tour

namespace Visit

def movesAll (visits : List Visit) : List Move :=
  visits.flatMap (·.moves)

end Visit

namespace Event

def isSplice : Event → Bool
  | .spliced .. => true
  | _ => false

theorem isWork_of_isSplice {event : Event} (splice : event.isSplice = true) :
    event.isWork = true := by
  cases event <;> first | rfl | contradiction

end Event

namespace Progress

/-- The failures of occurrences left untouched that are kept, each report once. -/
def noted (kept failures : List Failure) : List Failure :=
  failures.foldl
    (fun kept failure => if kept.any (sameReport failure) then kept else kept ++ [failure]) kept

theorem noted_append (kept former later : List Failure) :
    noted kept (former ++ later) = noted (noted kept former) later :=
  List.foldl_append

theorem prefix_noted (kept failures : List Failure) : kept <+: noted kept failures := by
  induction failures generalizing kept with
  | nil => exact List.prefix_refl kept
  | cons failure failures ih =>
      rw [noted, List.foldl_cons]
      refine List.IsPrefix.trans ?_ (ih _)
      split
      · exact List.prefix_refl kept
      · exact List.prefix_append ..

@[simp] theorem tolerated_record {progress : Progress} (events : List Event) :
    (progress.record events).tolerated = progress.tolerated := rfl

theorem tolerated_tolerate (progress : Progress) (failure : Failure) :
    (progress.tolerate failure).tolerated = noted progress.tolerated [failure] := by
  simp only [tolerate, noted, List.foldl_cons, List.foldl_nil]
  split <;> rfl

def splicesMade (progress : Progress) : List Event :=
  progress.work.filter Event.isSplice

end Progress

/-- Moves of which the progress keeps the splices and the failures. -/
structure Told (parenthesize : Bool) (before : Progress) (moves : List Move)
    (after : Progress) : Prop where
  splices : after.splicesMade = before.splicesMade ++ moves.filterMap (·.event? parenthesize)
  tolerated : after.tolerated = Progress.noted before.tolerated (moves.filterMap Move.failure?)

namespace Told

variable {parenthesize : Bool} {before between after : Progress} {former later : List Move}

theorem nothing (work : after.work = before.work) (tolerated : after.tolerated = before.tolerated) :
    Told parenthesize before [] after :=
  ⟨by simp [Progress.splicesMade, work], tolerated⟩

theorem append (first : Told parenthesize before former between)
    (second : Told parenthesize between later after) :
    Told parenthesize before (former ++ later) after :=
  ⟨by simp [second.splices, first.splices],
    by rw [second.tolerated, first.tolerated, List.filterMap_append, Progress.noted_append]⟩

end Told

/-- Sweeps that lead from one working tree to another while the progress tells of them. -/
def Toured (parenthesize : Bool) : Progression := fun start before final after =>
  ∃ visits, Tour parenthesize start visits final ∧
    Told parenthesize before (Visit.movesAll visits) after

theorem toured_composes (parenthesize : Bool) : (Toured parenthesize).Composes where
  refl trees progress := ⟨[], .done trees, .nothing rfl rfl⟩
  passDone trees progress pass splices := by
    refine ⟨[], .done trees, ?_, rfl⟩
    simp [Progress.splicesMade, Event.isWork, Event.isSplice, Visit.movesAll]
  trans := by
    rintro start middle final before between after ⟨former, first, toldFirst⟩
      ⟨later, second, toldSecond⟩
    refine ⟨former ++ later, first.append second, ?_⟩
    rw [Visit.movesAll, List.flatMap_append]
    exact toldFirst.append toldSecond

theorem Sweep.toured {parenthesize : Bool} {trees : List Tree} {moves : List Move} {last : Stand}
    {before after : Progress} (sweep : Sweep parenthesize (.start trees) moves last)
    (frames : List Frame) (told : Told parenthesize before moves after) :
    Toured parenthesize (Frame.fill frames trees) before (Frame.fill frames last.trees) after := by
  let visit : Visit := ⟨frames, trees, moves, last⟩
  have tour : Tour parenthesize visit.source [visit] visit.target := .visit sweep (.done _)
  exact ⟨[visit], tour, by simpa [Visit.movesAll] using told⟩

/-- What the scan of a sequence comes to: moves up to its end, or up to where it stopped. -/
def Outcome.Sweeps (parenthesize : Bool) (stand : Stand) (before : Progress) :
    Outcome (List Tree) → Prop
  | .done result after =>
      ∃ moves last, Sweep parenthesize stand moves last ∧ last.rest = [] ∧ last.trees = result ∧
        Told parenthesize before moves after
  | .stopped _ after =>
      ∃ moves last, Sweep parenthesize stand moves last ∧ Told parenthesize before moves after

theorem Outcome.Sweeps.cons {parenthesize : Bool} {stand next : Stand} {before between : Progress}
    {moves : List Move} {outcome : Outcome (List Tree)}
    (later : outcome.Sweeps parenthesize next between)
    (told : Told parenthesize before moves between)
    (first : ∀ {others last}, Sweep parenthesize next others last →
      Sweep parenthesize stand (moves ++ others) last) :
    outcome.Sweeps parenthesize stand before := by
  cases outcome with
  | done result after =>
      obtain ⟨others, last, sweep, ended, same, toldLater⟩ := later
      exact ⟨_, last, first sweep, ended, same, told.append toldLater⟩
  | stopped failure after =>
      obtain ⟨others, last, sweep, toldLater⟩ := later
      exact ⟨_, last, first sweep, told.append toldLater⟩

namespace Fronting

theorem siblings_sweeps (settings : Settings) (floor : Nat) (before rest : List Tree)
    (progress : Progress) :
    (siblings settings floor before rest progress).Sweeps settings.parenthesize
      ⟨floor, before, rest⟩ progress := by
  fun_induction siblings settings floor before rest progress with
  | case1 floor before progress =>
      exact ⟨[], _, .rest _, rfl, by simp [Stand.trees], .nothing rfl rfl⟩
  | case2 floor before tree after progress isMarker site reach recorded failure resolved tolerant ih =>
      have told : Told settings.parenthesize progress [.left site failure]
          (recorded.tolerate failure) := by
        refine ⟨?_, Progress.tolerated_tolerate ..⟩
        simp [recorded, Progress.splicesMade, Site.events_filter_isWork, Move.event?]
      exact ih.cons told (.leave isMarker resolved)
  | case3 floor before tree after progress isMarker site reach recorded failure resolved strict =>
      refine ⟨[], _, .rest _, .nothing ?_ rfl⟩
      simp [recorded, Site.events_filter_isWork]
  | case4 floor before tree after progress isMarker site reach recorded occurrence resolved counted beyond =>
      refine ⟨[], _, .rest _, .nothing ?_ rfl⟩
      simp [counted, recorded, Site.events_filter_isWork]
  | case5 floor before tree after progress isMarker site reach recorded occurrence resolved counted within replacement ih =>
      have told : Told settings.parenthesize progress [.spliced site occurrence]
          (counted.record [.spliced occurrence replacement]) := by
        refine ⟨?_, rfl⟩
        simp [recorded, counted, replacement, Progress.splicesMade, Site.events_filter_isWork,
          Event.isWork, Event.isSplice, Move.event?]
      exact ih.cons told (.splice isMarker resolved)
  | case6 floor before tree after progress noMarker ih =>
      exact ih.cons (.nothing rfl rfl) (.skip (by simpa using noMarker))

theorem siblings_toured (settings : Settings) (trees : List Tree) (progress : Progress)
    (frames : List Frame) :
    (siblings settings 0 [] trees progress).Leads (Toured settings.parenthesize)
      (Frame.fill frames trees) progress (Frame.fill frames) := by
  have sweeps := siblings_sweeps settings 0 [] trees progress
  cases scan : siblings settings 0 [] trees progress with
  | done result after =>
      rw [scan] at sweeps
      obtain ⟨moves, last, sweep, -, rfl, told⟩ := sweeps
      exact sweep.toured frames told
  | stopped failure after =>
      rw [scan] at sweeps
      obtain ⟨moves, last, sweep, told⟩ := sweeps
      exact ⟨_, sweep.toured frames told⟩

end Fronting

/-- A run is a tour of its sequences.  Its events tell of the splices that the sweeps make, in
their order, and its warnings are the failures of the occurrences that they leave untouched,
each report once. -/
theorem Fragment.front_toured (settings : Settings) (fragment : Fragment) :
    ∃ visits final, Tour settings.parenthesize fragment.children visits final ∧
      (fragment.front settings).events.filter Event.isSplice =
        (Visit.movesAll visits).filterMap (·.event? settings.parenthesize) ∧
      (fragment.front settings).tolerated =
        Progress.noted [] ((Visit.movesAll visits).filterMap Move.failure?) ∧
      ∀ result, (fragment.front settings).result = .ok result →
        result = { fragment with children := settle settings final } := by
  obtain ⟨final, after, ⟨visits, tour, told⟩, tolerated, work, succeeded⟩ :=
    front_leads (toured_composes settings.parenthesize) (Fronting.siblings_toured settings) fragment
  refine ⟨visits, final, tour, ?_, tolerated.trans told.tolerated, succeeded⟩
  have splices : (fragment.front settings).events.filter Event.isSplice = after.splicesMade := by
    rw [Progress.splicesMade, ← work, List.filter_filter]
    refine List.filter_congr fun event _ => ?_
    rw [Bool.eq_iff_iff, Bool.and_eq_true]
    exact ⟨fun splice => ⟨splice, Event.isWork_of_isSplice splice⟩, And.left⟩
  rw [splices, told.splices]
  simp [Progress.splicesMade]

end Headfirst
