import Headfirst.Proofs.Agreement
import Headfirst.Proofs.Exhaustion

namespace Headfirst

open Headfirst.Tree

/-! The bounds on a run.  They only cut off: a run that succeeds is the same under larger
bounds, and a strict one stops at the first splice beyond its bound, in whatever sequence it
is made. -/

namespace Settings

def within (settings : Settings) (maxSplices maxPasses : Int) : Settings :=
  { settings with maxSplices, maxPasses }

end Settings

namespace Fronting

variable {settings : Settings} {maxSplices maxPasses : Int} {progress after : Progress}

/-! Larger bounds. -/

theorem siblings_within (larger : settings.maxSplices ≤ maxSplices) {floor : Nat}
    {before rest result : List Tree}
    (done : siblings settings floor before rest progress = .done result after) :
    siblings (settings.within maxSplices maxPasses) floor before rest progress =
      .done result after := by
  fun_induction siblings settings floor before rest progress with
  | case1 floor before progress => rw [siblings_nil, done]
  | case2 floor before tree after progress isMarker site reach recorded failure resolved
      tolerant ih =>
      have step := @siblings_leave (settings.within maxSplices maxPasses) floor before after tree
        progress failure tolerant isMarker resolved
      exact step.trans (ih done)
  | case3 => contradiction
  | case4 => contradiction
  | case5 floor before tree after progress isMarker site reach recorded occurrence resolved
      counted fits replacement ih =>
      have step := @siblings_splice (settings.within maxSplices maxPasses) floor before after tree
        progress occurrence isMarker resolved (Int.le_trans (Int.not_lt.mp fits) larger)
      exact step.trans (ih done)
  | case6 floor before tree after progress noMarker ih =>
      rw [siblings_skip (by simpa using noMarker)]
      exact ih done

theorem pass_within (larger : settings.maxSplices ≤ maxSplices) :
    (∀ trees progress result after, sequence settings trees progress = .done result after →
      sequence (settings.within maxSplices maxPasses) trees progress = .done result after) ∧
    ∀ trees progress result after, below settings trees progress = .done result after →
      below (settings.within maxSplices maxPasses) trees progress = .done result after := by
  apply pass_induction
  case scan =>
      intro trees ih progress result after done
      rw [sequence_eq, Outcome.bind_eq_done] at done ⊢
      obtain ⟨scanned, between, scan, rest⟩ := done
      have smaller := sizeAll_siblings_start scan
      exact ⟨scanned, between, siblings_within larger scan,
        ih scanned smaller between result after rest⟩
  case nil =>
      intro progress result after done
      rw [below_nil] at done ⊢
      exact done
  case leaf =>
      intro token trees ih progress result after done
      rw [below_leaf, Outcome.bind_eq_done] at done ⊢
      obtain ⟨right, between, finished, whole⟩ := done
      exact ⟨right, between, ih progress right between finished, whole⟩
  case group =>
      intro bracket children trees ihInside ihRight progress result after done
      rw [below_group, Outcome.bind_eq_done] at done ⊢
      obtain ⟨inner, between, inside, rest⟩ := done
      rw [Outcome.bind_eq_done] at rest
      obtain ⟨right, last, finished, whole⟩ := rest
      refine ⟨inner, between, ihInside progress inner between inside, ?_⟩
      rw [Outcome.bind_eq_done]
      exact ⟨right, last, ihRight between right last finished, whole⟩

theorem fixpoint_within (moreSplices : settings.maxSplices ≤ maxSplices)
    (morePasses : settings.maxPasses ≤ maxPasses) {span : Span} {pass markers : Nat}
    {trees : List Tree} {value : List Tree × Nat}
    (done : fixpoint settings span pass markers trees progress = .done value after) :
    fixpoint (settings.within maxSplices maxPasses) span pass markers trees progress =
      .done value after := by
  have passes := (@pass_within settings maxSplices maxPasses moreSplices).1
  have room {pass : Nat} (fits : ¬ settings.maxPasses ≤ pass) :
      ¬ (settings.within maxSplices maxPasses).maxPasses ≤ pass :=
    fun spent => fits (Int.le_trans morePasses spent)
  fun_induction fixpoint settings span pass markers trees progress with
  | case1 => contradiction
  | case2 => contradiction
  | case3 pass markers trees progress fits result between pass_ splices recorded none =>
      rw [fixpoint_eq _ (room fits), passes _ _ _ _ pass_]
      simp only [Outcome.bind]
      rw [if_pos none]
      exact done
  | case4 => contradiction
  | case5 pass markers trees progress fits result between pass_ splices recorded remaining some
      exact none =>
      rw [fixpoint_eq _ (room fits), passes _ _ _ _ pass_]
      simp only [Outcome.bind]
      rw [if_neg some, if_neg exact, if_pos none]
      exact done
  | case6 pass markers trees progress fits result between pass_ splices recorded remaining some
      exact more ih =>
      rw [fixpoint_eq _ (room fits), passes _ _ _ _ pass_]
      simp only [Outcome.bind]
      rw [if_neg some, if_neg exact, if_neg more]
      exact ih done

end Fronting

/-! The moves of a pass. -/

mutual

/-- A pass over a sequence with all of its moves: those of the scan of the sequence, up to its
end, and those of the passes over the groups that the scan has left, from left to right. -/
inductive Pass (parenthesize : Bool) : List Tree → List Move → List Tree → Prop where
  | scan {trees result : List Tree} {moves later : List Move} {last : Stand}
      (sweep : Sweep parenthesize (.start trees) moves last) (ended : last.rest = [])
      (rest : PassBelow parenthesize last.trees later result) :
      Pass parenthesize trees (moves ++ later) result

inductive PassBelow (parenthesize : Bool) : List Tree → List Move → List Tree → Prop where
  | nil : PassBelow parenthesize [] [] []
  | leaf {token : Token} {trees result : List Tree} {moves : List Move}
      (rest : PassBelow parenthesize trees moves result) :
      PassBelow parenthesize (.leaf token :: trees) moves (.leaf token :: result)
  | group {bracket : Bracket} {children trees inner result : List Tree} {moves later : List Move}
      (inside : Pass parenthesize children moves inner)
      (rest : PassBelow parenthesize trees later result) :
      PassBelow parenthesize (.group bracket children :: trees) (moves ++ later)
        (.group bracket inner :: result)

end

/-- A scan that goes to the end has no choice. -/
theorem Sweep.unique {parenthesize : Bool} {stand last other : Stand} {moves others : List Move}
    (first : Sweep parenthesize stand moves last) (ended : last.rest = [])
    (second : Sweep parenthesize stand others other) (endedToo : other.rest = []) :
    moves = others ∧ last = other := by
  induction first generalizing others with
  | rest stand =>
      cases second with
      | rest => exact ⟨rfl, rfl⟩
      | skip | leave | splice => contradiction
  | skip noMarker later ih =>
      cases second with
      | rest => contradiction
      | skip _ laterToo => exact ih ended laterToo
      | leave isMarker | splice isMarker =>
          rw [noMarker] at isMarker
          contradiction
  | leave isMarker failed later ih =>
      cases second with
      | rest => contradiction
      | skip noMarker =>
          rw [noMarker] at isMarker
          contradiction
      | leave _ failedToo laterToo =>
          cases failed.symm.trans failedToo
          obtain ⟨rfl, same⟩ := ih ended laterToo
          exact ⟨rfl, same⟩
      | splice _ resolved => cases failed.symm.trans resolved
  | splice isMarker resolved later ih =>
      cases second with
      | rest => contradiction
      | skip noMarker =>
          rw [noMarker] at isMarker
          contradiction
      | leave _ failed => cases resolved.symm.trans failed
      | splice _ resolvedToo laterToo =>
          cases resolved.symm.trans resolvedToo
          obtain ⟨rfl, same⟩ := ih ended laterToo
          exact ⟨rfl, same⟩

/-- Induction over the two ways in which a pass goes through a tree. -/
theorem Pass.induction {parenthesize : Bool}
    {ofPass ofBelow : List Tree → List Move → List Tree → Prop}
    (scan : ∀ {trees result moves later last}, Sweep parenthesize (.start trees) moves last →
      last.rest = [] → ofBelow last.trees later result → ofPass trees (moves ++ later) result)
    (nil : ofBelow [] [] [])
    (leaf : ∀ {token trees result moves}, ofBelow trees moves result →
      ofBelow (.leaf token :: trees) moves (.leaf token :: result))
    (group : ∀ {bracket children trees inner result moves later}, ofPass children moves inner →
      ofBelow trees later result →
      ofBelow (.group bracket children :: trees) (moves ++ later) (.group bracket inner :: result)) :
    (∀ trees moves result, Pass parenthesize trees moves result → ofPass trees moves result) ∧
      ∀ trees moves result, PassBelow parenthesize trees moves result →
        ofBelow trees moves result :=
  ⟨fun _ _ _ => @Pass.rec parenthesize (fun trees moves result _ => ofPass trees moves result)
      (fun trees moves result _ => ofBelow trees moves result)
      (fun sweep ended _ => scan sweep ended) nil (fun _ => leaf) (fun _ _ => group) _ _ _,
    fun _ _ _ => @PassBelow.rec parenthesize (fun trees moves result _ => ofPass trees moves result)
      (fun trees moves result _ => ofBelow trees moves result)
      (fun sweep ended _ => scan sweep ended) nil (fun _ => leaf) (fun _ _ => group) _ _ _⟩

theorem Pass.unique {parenthesize : Bool} {trees result other : List Tree}
    {moves others : List Move} (first : Pass parenthesize trees moves result)
    (second : Pass parenthesize trees others other) : moves = others ∧ result = other := by
  have both := @Pass.induction parenthesize
    (fun trees moves result => ∀ others other, Pass parenthesize trees others other →
      moves = others ∧ result = other)
    (fun trees moves result => ∀ others other, PassBelow parenthesize trees others other →
      moves = others ∧ result = other)
  refine (both ?scan ?nil ?leaf ?group).1 trees moves result first others other second
  case scan =>
      intro trees result moves later last sweep ended ih others other second
      cases second with
      | scan sweepToo endedToo restToo =>
          obtain ⟨rfl, rfl⟩ := sweep.unique ended sweepToo endedToo
          obtain ⟨rfl, rfl⟩ := ih _ _ restToo
          exact ⟨rfl, rfl⟩
  case nil =>
      intro others other second
      cases second
      exact ⟨rfl, rfl⟩
  case leaf =>
      intro token trees result moves ih others other second
      cases second with
      | leaf restToo =>
          obtain ⟨rfl, rfl⟩ := ih _ _ restToo
          exact ⟨rfl, rfl⟩
  case group =>
      intro bracket children trees inner result moves later ihInside ihRest others other second
      cases second with
      | group insideToo restToo =>
          obtain ⟨rfl, rfl⟩ := ihInside _ _ insideToo
          obtain ⟨rfl, rfl⟩ := ihRest _ _ restToo
          exact ⟨rfl, rfl⟩

/-- Work with the given moves, all of them splices: it is done, and all of them are within
the bound, or it stops at the marker of the one that goes over the bound. -/
def Outcome.CutsOff {α : Type} (settings : Settings) (before : Progress) (moves : List Move)
    (result : α) : Outcome α → Prop
  | .done value after =>
      value = result ∧ after.splices = before.splices + moves.length ∧
        after.splices ≤ settings.maxSplices
  | .stopped failure _ =>
      ∃ index, ∃ inside : index < moves.length,
        before.splices + index = settings.maxSplices ∧
        failure = ⟨.tooManySplices settings.maxSplices, moves[index].site.marker.span, none⟩

namespace Outcome.CutsOff

variable {α β : Type} {settings : Settings} {before between : Progress}
  {moves later : List Move} {value : α} {result : β}

theorem nothing (room : before.splices ≤ settings.maxSplices) :
    (Outcome.done value before).CutsOff settings before [] value :=
  ⟨rfl, rfl, room⟩

theorem after {outcome : Outcome β} (counted : between.splices = before.splices + moves.length)
    (second : outcome.CutsOff settings between later result) :
    outcome.CutsOff settings before (moves ++ later) result := by
  cases outcome with
  | done final last =>
      obtain ⟨same, countedToo, room⟩ := second
      refine ⟨same, ?_, room⟩
      rw [countedToo, counted, List.length_append, Nat.add_assoc]
  | stopped failure last =>
      obtain ⟨index, inside, beyond, same⟩ := second
      refine ⟨moves.length + index, by rw [List.length_append]; omega, by omega, ?_⟩
      rw [same, List.getElem_append_right (Nat.le_add_right ..)]
      simp only [Nat.add_sub_cancel_left]

theorem cons {outcome : Outcome β} {move : Move}
    (second : outcome.CutsOff settings between later result)
    (counted : between.splices = before.splices + 1) :
    outcome.CutsOff settings before (move :: later) result :=
  have one : between.splices = before.splices + [move].length := counted
  after one second

theorem bind {outcome : Outcome α} {next : α → Progress → Outcome β}
    (first : outcome.CutsOff settings before moves value)
    (second : ∀ after, after.splices ≤ settings.maxSplices →
      (next value after).CutsOff settings after later result) :
    (outcome.bind next).CutsOff settings before (moves ++ later) result := by
  cases outcome with
  | stopped failure last =>
      obtain ⟨index, inside, beyond, same⟩ := first
      refine ⟨index, by rw [List.length_append]; omega, beyond, ?_⟩
      rw [same, List.getElem_append_left inside]
  | done other last =>
      obtain ⟨rfl, counted, room⟩ := first
      exact (second last room).after counted

end Outcome.CutsOff

namespace Fronting

variable {settings : Settings}

theorem siblings_cutsOff {progress : Progress} {moves : List Move} {stand last : Stand}
    (sweep : Sweep settings.parenthesize stand moves last) (ended : last.rest = [])
    (spliced : ∀ move ∈ moves, move.failure? = none)
    (room : progress.splices ≤ settings.maxSplices) :
    (siblings settings stand.floor stand.before stand.rest progress).CutsOff settings progress
      moves last.trees := by
  induction sweep generalizing progress with
  | rest stand =>
      rw [Stand.trees, ended, siblings_nil, List.append_nil]
      exact .nothing room
  | skip noMarker later ih =>
      rw [siblings_skip noMarker]
      exact ih ended spliced room
  | leave isMarker failed later ih => cases spliced _ List.mem_cons_self
  | @splice floor before after tree occurrence moves last isMarker resolved later ih =>
      by_cases fits : progress.splices + 1 ≤ settings.maxSplices
      · rw [siblings_splice isMarker resolved fits]
        have goesOn := @ih
          (Fronting.spliced settings ⟨before, tree, after⟩ (before.length - floor) occurrence
            progress)
          ended (fun move member => spliced move (List.mem_cons_of_mem _ member)) fits
        exact goesOn.cons rfl
      · rw [siblings_exceed isMarker resolved (by omega)]
        exact ⟨0, Nat.zero_lt_succ _, by omega, rfl⟩

theorem sequence_cutsOff {progress : Progress} {trees result : List Tree} {moves : List Move}
    (pass : Pass settings.parenthesize trees moves result)
    (spliced : ∀ move ∈ moves, move.failure? = none)
    (room : progress.splices ≤ settings.maxSplices) :
    (sequence settings trees progress).CutsOff settings progress moves result := by
  have both := @Pass.induction settings.parenthesize
    (fun trees moves result => ∀ progress : Progress, (∀ move ∈ moves, move.failure? = none) →
      progress.splices ≤ settings.maxSplices →
        (sequence settings trees progress).CutsOff settings progress moves result)
    (fun trees moves result => ∀ progress : Progress, (∀ move ∈ moves, move.failure? = none) →
      progress.splices ≤ settings.maxSplices →
        (below settings trees progress).CutsOff settings progress moves result)
  refine (both ?scan ?nil ?leaf ?group).1 trees moves result pass progress spliced room
  case scan =>
      intro trees result moves later last sweep ended ih progress spliced room
      rw [List.forall_mem_append] at spliced
      rw [sequence_eq]
      exact (siblings_cutsOff sweep ended spliced.1 room).bind fun after room =>
        ih after spliced.2 room
  case nil =>
      intro progress spliced room
      rw [below_nil]
      exact .nothing room
  case leaf =>
      intro token trees result moves ih progress spliced room
      rw [below_leaf, ← List.append_nil moves]
      exact (ih progress spliced room).bind fun after room => .nothing room
  case group =>
      intro bracket children trees inner result moves later ihInside ihRest progress spliced room
      rw [List.forall_mem_append] at spliced
      rw [below_group]
      refine (ihInside progress spliced.1 room).bind fun after room => ?_
      rw [← List.append_nil later]
      exact (ihRest after spliced.2 room).bind fun after room => .nothing room

variable (settings)

/-- The progress of a pass tells of its moves. -/
theorem pass_told :
    (∀ trees progress result after, sequence settings trees progress = .done result after →
      ∃ moves, Pass settings.parenthesize trees moves result ∧
        Told settings.parenthesize progress moves after) ∧
    ∀ trees progress result after, below settings trees progress = .done result after →
      ∃ moves, PassBelow settings.parenthesize trees moves result ∧
        Told settings.parenthesize progress moves after := by
  apply pass_induction
  case scan =>
      intro trees ih progress result after done
      rw [sequence_eq, Outcome.bind_eq_done] at done
      obtain ⟨scanned, between, scan, rest⟩ := done
      have smaller := sizeAll_siblings_start scan
      have sweeps := siblings_sweeps settings 0 [] trees progress
      rw [scan] at sweeps
      obtain ⟨moves, last, sweep, ended, rfl, told⟩ := sweeps
      obtain ⟨later, pass, toldLater⟩ := ih _ smaller between result after rest
      exact ⟨moves ++ later, .scan sweep ended pass, told.append toldLater⟩
  case nil =>
      intro progress result after done
      rw [below_nil] at done
      cases done
      exact ⟨[], .nil, .nothing rfl rfl⟩
  case leaf =>
      intro token trees ih progress result after done
      rw [below_leaf, Outcome.bind_eq_done] at done
      obtain ⟨right, between, finished, whole⟩ := done
      cases whole
      obtain ⟨moves, pass, told⟩ := ih progress right after finished
      exact ⟨moves, .leaf pass, told⟩
  case group =>
      intro bracket children trees ihInside ihRight progress result after done
      rw [below_group, Outcome.bind_eq_done] at done
      obtain ⟨inner, between, inside, rest⟩ := done
      rw [Outcome.bind_eq_done] at rest
      obtain ⟨right, last, finished, whole⟩ := rest
      cases whole
      obtain ⟨moves, pass, told⟩ := ihInside progress inner between inside
      obtain ⟨later, passRight, toldRight⟩ := ihRight between right after finished
      exact ⟨moves ++ later, .group pass passRight, told.append toldRight⟩

theorem tolerated_of_strict (strict : settings.tolerant = false) {trees result : List Tree}
    {progress after : Progress} (clean : progress.tolerated = [])
    (done : sequence settings trees progress = .done result after) : after.tolerated = [] := by
  have same : settings.strict = settings := by
    rw [Settings.strict, ← strict]
  have inStep := (pass_inStep settings).1 trees progress clean
  rw [same, done] at inStep
  cases inStep with
  | together _ clean => exact clean
  | parted stopped => contradiction

end Fronting

namespace Progress

theorem eq_nil_of_noted {failures : List Failure} (none : noted [] failures = []) :
    failures = [] := by
  cases failures with
  | nil => rfl
  | cons failure failures =>
      have kept : [failure] <+: noted [] (failure :: failures) := prefix_noted [failure] failures
      rw [none, List.prefix_nil] at kept
      contradiction

theorem filter_isSplice_closed {progress : Progress} {event : Event}
    (idle : event.isWork = false) :
    (progress.events.reverse ++ [event]).filter Event.isSplice = progress.splicesMade := by
  rw [splicesMade, ← filter_isWork_closed idle, List.filter_filter]
  refine List.filter_congr fun event _ => ?_
  rw [Bool.eq_iff_iff, Bool.and_eq_true]
  exact ⟨fun splice => ⟨splice, Event.isWork_of_isSplice splice⟩, And.left⟩

end Progress

/-- Without a warning nothing has been left untouched. -/
theorem Told.spliced {parenthesize : Bool} {before after : Progress} {moves : List Move}
    (told : Told parenthesize before moves after) (clean : before.tolerated = [])
    (none : after.tolerated = []) : ∀ move ∈ moves, move.failure? = Option.none := by
  have noted := told.tolerated
  rw [none, clean] at noted
  exact List.filterMap_eq_nil_iff.mp (Progress.eq_nil_of_noted noted.symm)

namespace Fragment

open Headfirst.Fronting

variable {settings : Settings} {fragment result : Fragment}

theorem front_within (succeeded : (fragment.front settings).result = .ok result)
    {maxSplices maxPasses : Int} (moreSplices : settings.maxSplices ≤ maxSplices)
    (morePasses : settings.maxPasses ≤ maxPasses) :
    fragment.front (settings.within maxSplices maxPasses) = fragment.front settings := by
  obtain ⟨shallow, -, -⟩ := front_admitted succeeded
  cases loop : fixpoint settings fragment.tree.span 0 (markersAll fragment.children)
      fragment.children fragment.begun with
  | stopped failure after =>
      rw [front_of_stopped shallow loop, result_stopped] at succeeded
      contradiction
  | done value after =>
      rw [front_of_done shallow loop,
        front_of_done shallow (fixpoint_within moreSplices morePasses loop)]
      rfl

/-- A bound of `bound` splices on a pass whose moves are all splices. -/
theorem front_cutsOff {moves : List Move} {final : List Tree} {bound : Nat} {maxPasses : Int}
    (shallow : fragment.tree.depth ≤ maxDepth) (unmarked : markersAll final = 0)
    (pass : Pass settings.parenthesize fragment.children moves final)
    (spliced : ∀ move ∈ moves, move.failure? = none) (some : 1 ≤ maxPasses) :
    let run := fragment.front (settings.within bound maxPasses)
    ((∃ other, run.result = .ok other) ↔ moves.length ≤ bound) ∧
      ∀ exceeded : bound < moves.length,
        run.result = .error ⟨.tooManySplices bound, moves[bound].site.marker.span, none⟩ := by
  have room : 0 < (settings.within bound maxPasses).maxPasses := some
  have cutsOff := @sequence_cutsOff (settings.within bound maxPasses) fragment.begun _ _ _ pass
    spliced (Int.natCast_nonneg bound)
  cases work : sequence (settings.within bound maxPasses) fragment.children fragment.begun with
  | done value after =>
      rw [work] at cutsOff
      obtain ⟨rfl, counted, within⟩ := cutsOff
      have fits : moves.length ≤ bound := by
        rw [counted, splices_begun, Nat.zero_add] at within
        exact Int.ofNat_le.mp within
      obtain ⟨ok, -⟩ := front_once shallow room work unmarked
      exact ⟨⟨fun _ => fits, fun _ => ⟨_, ok⟩⟩,
        fun exceeded => absurd fits (Nat.not_le.mpr exceeded)⟩
  | stopped failure after =>
      rw [work] at cutsOff
      obtain ⟨index, inside, beyond, rfl⟩ := cutsOff
      have here : index = bound := by
        rw [splices_begun, Int.natCast_zero, Int.zero_add] at beyond
        exact Int.ofNat_inj.mp beyond
      subst here
      rw [front_stopped shallow room work]
      exact ⟨⟨fun ok => by simp at ok, fun fits => absurd fits (Nat.not_le.mpr inside)⟩,
        fun _ => rfl⟩

/-- A strict run that succeeds makes one pass, whose moves are its splices. -/
theorem front_moves (strict : settings.tolerant = false)
    (succeeded : (fragment.front settings).result = .ok result) :
    ∃ moves final, Pass settings.parenthesize fragment.children moves final ∧
      (∀ move ∈ moves, move.failure? = none) ∧ markersAll final = 0 ∧
      (fragment.front settings).events.filter Event.isSplice =
        moves.filterMap (·.event? settings.parenthesize) ∧
      (fragment.front settings).splices = moves.length ∧
      result = { fragment with children := settle settings final } := by
  obtain ⟨shallow, room, final, after, work⟩ := front_admitted succeeded
  have unmarked := markersAll_of_strict strict work
  have clean := tolerated_of_strict settings strict (tolerated_begun fragment) work
  obtain ⟨moves, pass, told⟩ := (pass_told settings).1 _ _ _ _ work
  have spliced := told.spliced (tolerated_begun fragment) clean
  obtain ⟨ok, -, counted, -⟩ := front_once shallow room work unmarked
  refine ⟨moves, final, pass, spliced, unmarked, ?_, ?_, ?_⟩
  · rw [front_of_done shallow (fixpoint_once fragment.tree.span room work unmarked),
      Progress.filter_isSplice_closed rfl]
    have passDone : ∀ splices, (after.record [.passDone 1 splices]).splicesMade =
        after.splicesMade := by
      intro splices
      simp [Progress.splicesMade, Event.isWork, Event.isSplice]
    rw [passDone, told.splices]
    simp [Progress.splicesMade]
  · have enough : (0 : Int) ≤ max settings.maxSplices 0 := Int.le_max_right ..
    have cutsOff := @sequence_cutsOff
      (settings.within (max settings.maxSplices 0) settings.maxPasses) fragment.begun _ _ _ pass
      spliced enough
    rw [pass_within (Int.le_max_left ..) |>.1 _ _ _ _ work] at cutsOff
    obtain ⟨-, length, -⟩ := cutsOff
    rw [counted, length, splices_begun, Nat.zero_add]
  · rw [succeeded] at ok
    cases ok
    rfl

/-- The bounds of a run only cut off.  Where a run succeeds, larger bounds do not change it.
The moves of a strict run that succeeds are its splices, and a bound on their number is kept
exactly if it is not less than that number.  Otherwise the run fails at the marker of the
first splice that goes over the bound. -/
theorem front_limits (succeeded : (fragment.front settings).result = .ok result) :
    (∀ maxSplices maxPasses, settings.maxSplices ≤ maxSplices → settings.maxPasses ≤ maxPasses →
      fragment.front (settings.within maxSplices maxPasses) = fragment.front settings) ∧
    (settings.tolerant = false → ∃ moves final,
      Pass settings.parenthesize fragment.children moves final ∧
      (∀ others other, Pass settings.parenthesize fragment.children others other →
        others = moves ∧ other = final) ∧
      (fragment.front settings).events.filter Event.isSplice =
        moves.filterMap (·.event? settings.parenthesize) ∧
      (fragment.front settings).splices = moves.length ∧
      ∀ (bound : Nat) (maxPasses : Int), 1 ≤ maxPasses →
        let limited := fragment.front (settings.within bound maxPasses)
        ((∃ other, limited.result = .ok other) ↔ (fragment.front settings).splices ≤ bound) ∧
        ∀ exceeded : bound < moves.length,
          limited.result =
            .error ⟨.tooManySplices bound, moves[bound].site.marker.span, none⟩) := by
  refine ⟨fun _ _ => front_within succeeded, fun strict => ?_⟩
  obtain ⟨moves, final, pass, spliced, unmarked, told, counted, -⟩ := front_moves strict succeeded
  refine ⟨moves, final, pass, fun _ _ another => another.unique pass, told, counted, ?_⟩
  intro bound maxPasses some
  rw [counted]
  exact front_cutsOff (front_admitted succeeded).1 unmarked pass spliced some

/-- `x::(match) {}::(&)` makes two splices.  A bound of one lets it fail at its second
marker. -/
theorem front_limits_arms_reference :
    let chain := Chain.lone Chain.name Chain.isPlain_name rfl .arms [.reference]
    chain.fragment.front (Settings.within {} 20000 2000) = chain.fragment.front {} ∧
      (∃ other, (chain.fragment.front (Settings.within {} 2 1)).result = .ok other) ∧
      ∃ span, (chain.fragment.front (Settings.within {} 1 1)).result =
        .error ⟨.tooManySplices 1, span, none⟩ := by
  intro chain
  have alone : chain.Alone := Chain.alone_lone _ _
  obtain ⟨succeeded, -, two, -⟩ := Chain.front_fill {} [] { delimiter := .invisible } alone rfl rfl
    (by decide) (by decide) (by decide)
  obtain ⟨larger, bounded⟩ := front_limits succeeded
  obtain ⟨moves, final, -, -, -, counted, limited⟩ := bounded rfl
  have length : moves.length = 2 := counted.symm.trans two
  refine ⟨larger 20000 2000 (by decide) (by decide), ?_, ⟨moves[1].site.marker.span, ?_⟩⟩
  · exact (limited 2 1 (by decide)).1.mpr (Nat.le_of_eq two)
  · exact (limited 1 1 (by decide)).2 (by rw [length]; decide)

end Fragment

end Headfirst
