import Headfirst.Fragment.Basic
import Headfirst.Fronting.Pass
import Headfirst.Tree.Flatten

namespace Headfirst

open Headfirst.Tree

/-! Passes over a fragment until no marker can be resolved any more. -/

/-- The outcome of a run over a fragment.  The events are in the order in which they
happened. -/
structure Run where
  result : Except Failure Fragment
  passes : Nat
  splices : Nat
  tolerated : List Failure
  events : List Event
deriving Repr

namespace Fronting

/-- Passes until one makes no splice or leaves no marker.  `pass` of them are done, and
`markers` are left; the span is that of the whole fragment.  Every splice has to take away
one marker. -/
def fixpoint (settings : Settings) (span : Span) (pass markers : Nat) (trees : List Tree)
    (progress : Progress) : Outcome (List Tree × Nat) :=
  if settings.maxPasses ≤ pass then
    .stopped ⟨.noFixpoint pass settings.maxPasses, span, none⟩ progress
  else
    match sequence settings trees progress with
    | .stopped failure progress => .stopped failure progress
    | .done trees after =>
        let splices := after.splices - progress.splices
        let after := after.record [.passDone (pass + 1) splices]
        let remaining := markersAll trees
        if splices = 0 then .done (trees, pass + 1) after
        else if remaining + splices ≠ markers then
          .stopped ⟨.markersDrifted markers remaining splices, span, none⟩ after
        else if remaining = 0 then .done (trees, pass + 1) after
        else fixpoint settings span (pass + 1) remaining trees after
termination_by (settings.maxPasses - pass).toNat

/-- How deep a tree the stack lets a run copy.  A hundred calls are left to those around the run,
which are not more wherever in a source a run is made. -/
def maxDepth : Nat := (Stack.frames - 100) / Stack.copying

end Fronting

namespace Fragment

def stopped (failure : Failure) (progress : Progress) : Run where
  result := .error failure
  passes := 0
  splices := progress.splices
  tolerated := progress.tolerated
  events := progress.events.reverse ++ [.failed failure]

/-- Moves the constructs of a fragment in front of their operands.  The invisible groups
that hold replacements together are dissolved at the end, unless they are to be kept. -/
def front (settings : Settings) (fragment : Fragment) : Run :=
  let span := fragment.tree.span
  if Fronting.maxDepth < fragment.tree.depth then stopped ⟨.treeTooDeep, span, none⟩ {}
  else
    let markers := markersAll fragment.children
    let start : Progress := { events := [.started markers] }
    match Fronting.fixpoint settings span 0 markers fragment.children start with
    | .stopped failure progress => stopped failure progress
    | .done (trees, passes) progress =>
        let children := if settings.keepGroups then trees else flattenAll trees
        let finished := .finished progress.splices passes progress.tolerated.length
        { result := .ok { fragment with children }
          passes
          splices := progress.splices
          tolerated := progress.tolerated
          events := progress.events.reverse ++ [finished] }

end Fragment

end Headfirst
