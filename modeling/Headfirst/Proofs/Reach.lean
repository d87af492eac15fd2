import Headfirst.Proofs.Limits

namespace Headfirst

open Headfirst.Tree

/-! How far an operand can reach.  A strict run leaves no occurrence untouched, so each of its
operands could reach back to the start of its sequence, and no marker stands in front of it. -/

namespace Splice

structure Whole (splice : Splice) : Prop where
  settled : Settled splice.site.before.length splice.site.before (some splice.site.marker)
  resolved : splice.site.resolve splice.site.before.length = .ok splice.occurrence

def move (splice : Splice) : Move :=
  .spliced splice.site splice.occurrence

end Splice

/-- A trace with the given moves, whose operands could reach back to the start. -/
def Unbounded (parenthesize : Bool) (start : List Tree) (moves : List Move)
    (final : List Tree) : Prop :=
  ∃ splices, Trace parenthesize start splices final ∧ moves = splices.map Splice.move ∧
    ∀ splice ∈ splices, splice.Whole

namespace Unbounded

variable {parenthesize : Bool} {start middle final : List Tree} {former later : List Move}

theorem refl (trees : List Tree) : Unbounded parenthesize trees [] trees :=
  ⟨[], .done trees, rfl, by simp⟩

theorem trans (first : Unbounded parenthesize start former middle)
    (second : Unbounded parenthesize middle later final) :
    Unbounded parenthesize start (former ++ later) final := by
  obtain ⟨splices, trace, rfl, whole⟩ := first
  obtain ⟨others, traceLater, rfl, wholeLater⟩ := second
  exact ⟨splices ++ others, trace.append traceLater, (List.map_append ..).symm,
    List.forall_mem_append.mpr ⟨whole, wholeLater⟩⟩

end Unbounded

theorem Sweep.unbounded {parenthesize : Bool} {stand last : Stand} {moves : List Move}
    (sweep : Sweep parenthesize stand moves last) (ground : stand.floor = 0)
    (ready : Fronting.Ready 0 stand.before stand.rest)
    (spliced : ∀ move ∈ moves, move.failure? = none) (frames : List Frame) :
    Unbounded parenthesize (Frame.fill frames stand.trees) moves
      (Frame.fill frames last.trees) := by
  induction sweep with
  | rest stand => exact .refl _
  | skip noMarker later ih =>
      have next := ih ground (ready.skip noMarker) spliced
      rwa [Stand.trees, List.reverse_cons, List.append_assoc, List.singleton_append] at next
  | leave => cases spliced _ List.mem_cons_self
  | @splice floor before after tree occurrence moves last isMarker resolved later ih =>
      subst ground
      rw [List.forall_mem_cons] at spliced
      have next := ih rfl (ready.splice resolved parenthesize) spliced.2
      rw [Stand.trees, List.reverse_cons, List.append_assoc, List.singleton_append] at next
      let splice : Splice := ⟨frames, ⟨before, tree, after⟩, occurrence⟩
      have due : splice.Due := ⟨isMarker, _, ready.settled, resolved⟩
      have whole : splice.Whole := ⟨ready.settled, resolved⟩
      have step : Unbounded parenthesize splice.source [splice.move]
          (splice.target parenthesize) :=
        ⟨[splice], .splice due (.done _), rfl, by simpa using whole⟩
      exact step.trans next

theorem Pass.unbounded {parenthesize : Bool} {trees result : List Tree} {moves : List Move}
    (pass : Pass parenthesize trees moves result)
    (spliced : ∀ move ∈ moves, move.failure? = none) :
    Unbounded parenthesize trees moves result := by
  have both := @Pass.induction parenthesize
    (fun trees moves result => (∀ move ∈ moves, move.failure? = none) → ∀ frames,
      Unbounded parenthesize (Frame.fill frames trees) moves (Frame.fill frames result))
    (fun trees moves result => (∀ move ∈ moves, move.failure? = none) → ∀ frames left,
      Unbounded parenthesize (Frame.fill frames (left ++ trees)) moves
        (Frame.fill frames (left ++ result)))
  refine (both ?scan ?nil ?leaf ?group).1 trees moves result pass spliced []
  case scan =>
      intro trees result moves later last sweep ended ih spliced frames
      rw [List.forall_mem_append] at spliced
      exact (sweep.unbounded rfl (.start trees) spliced.1 frames).trans (ih spliced.2 frames [])
  case nil =>
      intro spliced frames left
      exact .refl _
  case leaf =>
      intro token trees result moves ih spliced frames left
      have right := ih spliced frames (left ++ [.leaf token])
      rwa [List.append_assoc, List.append_assoc] at right
  case group =>
      intro bracket children trees inner result moves later ihInside ihRest spliced frames left
      rw [List.forall_mem_append] at spliced
      have inside := ihInside spliced.1 (⟨left, bracket, trees⟩ :: frames)
      have right := ihRest spliced.2 frames (left ++ [.group bracket inner])
      rw [List.append_assoc, List.append_assoc] at right
      exact inside.trans right

/-- A strict run that succeeds is such a trace, and its events tell of the splices. -/
theorem Fragment.front_unbounded {settings : Settings} {fragment result : Fragment}
    (strict : settings.tolerant = false)
    (succeeded : (fragment.front settings).result = .ok result) :
    ∃ splices final, Trace settings.parenthesize fragment.children splices final ∧
      (∀ splice ∈ splices, splice.Whole) ∧
      (fragment.front settings).events.filter Event.isSplice =
        splices.map (·.event settings.parenthesize) ∧
      result = { fragment with children := settle settings final } ∧ markersAll final = 0 := by
  obtain ⟨moves, final, pass, spliced, unmarked, told, -, same⟩ := front_moves strict succeeded
  obtain ⟨splices, trace, rfl, whole⟩ := pass.unbounded spliced
  refine ⟨splices, final, trace, whole, told.trans ?_, same, unmarked⟩
  rw [List.filterMap_map]
  exact congrFun (@List.filterMap_eq_map _ _ (Splice.event settings.parenthesize)) splices

end Headfirst
