import Headfirst.Fronting.Event
import Headfirst.Occurrence.Conservation
import Headfirst.Settings

namespace Headfirst

/-! The markers of one sequence, resolved from left to right. -/

/-- What a run has done so far.  The events are newest first. -/
structure Progress where
  splices : Nat := 0
  tolerated : List Failure := []
  events : List Event := []
deriving Repr

/-- A value, or the failure that stopped the work, with what was done until then. -/
inductive Outcome (α : Type) where
  | done (value : α) (progress : Progress)
  | stopped (failure : Failure) (progress : Progress)
deriving Repr

namespace Progress

def record (progress : Progress) (events : List Event) : Progress :=
  { progress with events := events.reverse ++ progress.events }

def count (progress : Progress) : Progress :=
  { progress with splices := progress.splices + 1 }

/-- Two failures are the same to the user when code, place and message are. -/
def sameReport (left right : Failure) : Bool :=
  left.fault.code.text == right.fault.code.text && left.span.line == right.span.line &&
    left.span.column == right.span.column && left.fault.message == right.fault.message

/-- Keeps a failure that leaves its occurrence untouched, unless it is known already. -/
def tolerate (progress : Progress) (failure : Failure) : Progress :=
  if progress.tolerated.any (sameReport failure) then progress
  else
    { progress with tolerated := progress.tolerated ++ [failure] }.record [.tolerated failure]

end Progress

namespace Fronting

/-- The index just past an occurrence left untouched, whose marker has the given index:
past its head and, if there is a head, past its block. -/
def untouchedEnd (marker : Nat) : (after : List Tree) → Nat
  | [] => marker + 1
  | group :: after =>
      if group.isGroup .paren then
        if after.head?.any (·.isGroup .brace) then marker + 3 else marker + 2
      else marker + 1

/-- Resolves the markers of one sequence from left to right.  `before` has been dealt
with, nearest tree first, and no operand goes below the index `floor`.  The scan goes on
right after a replacement, which is operand to the marker that follows it. -/
def siblings (settings : Settings) (floor : Nat) (before : List Tree) :
    (rest : List Tree) → Progress → Outcome (List Tree)
  | [], progress => .done before.reverse progress
  | tree :: after, progress =>
      if Marker.test tree after.head? then
        let site : Site := ⟨before, tree, after⟩
        let reach := before.length - floor
        let progress := progress.record (site.events reach)
        match _resolved : site.resolve reach with
        | .error failure =>
            if settings.tolerant then
              siblings settings (untouchedEnd before.length after) (tree :: before) after
                (progress.tolerate failure)
            else .stopped failure progress
        | .ok occurrence =>
            let progress := progress.count
            if settings.maxSplices < progress.splices then
              .stopped ⟨.tooManySplices settings.maxSplices, tree.span, none⟩ progress
            else
              let replacement := occurrence.replacement settings.parenthesize
              siblings settings floor (replacement :: occurrence.before) occurrence.after
                (progress.record [.spliced occurrence replacement])
      else siblings settings floor (tree :: before) after progress
termination_by rest => rest.length
decreasing_by
  · simp
  · have := Site.length_after_lt _resolved
    simp only [site, List.length_cons] at *
    omega
  · simp

open Headfirst.Tree

theorem sizeAll_siblings {settings : Settings} {floor : Nat} {before rest : List Tree}
    {progress after : Progress} {result : List Tree}
    (done : siblings settings floor before rest progress = .done result after) :
    sizeAll result ≤ sizeAll before + sizeAll rest := by
  fun_induction siblings settings floor before rest progress with
  | case1 =>
      cases done
      simp
  | case2 =>
      simp_all [sizeAll]
      omega
  | case3 => contradiction
  | case4 => contradiction
  | case5 floor before tree after' progress isMarker site reach recorded occurrence resolved counted within replacement ih =>
      have room : sizeAll occurrence.before + replacement.size + sizeAll occurrence.after ≤
          sizeAll before + tree.size + sizeAll after' :=
        Site.size_replacement_le resolved settings.parenthesize
      have := ih done
      simp only [sizeAll] at *
      omega
  | case6 =>
      simp_all [sizeAll]
      omega

/-- The scan of a sequence leaves no larger one. -/
theorem sizeAll_siblings_start {settings : Settings} {trees scanned : List Tree}
    {progress after : Progress}
    (done : siblings settings 0 [] trees progress = .done scanned after) :
    sizeAll scanned ≤ sizeAll trees := by
  have bound := sizeAll_siblings done
  rwa [sizeAll, Nat.zero_add] at bound

end Fronting

end Headfirst
