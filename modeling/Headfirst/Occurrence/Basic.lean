import Headfirst.Occurrence.Body
import Headfirst.Occurrence.Marker
import Headfirst.Occurrence.Operand
import Headfirst.Occurrence.Replacement

namespace Headfirst

/-! Occurrences of the marker: the sequence around a marker, divided into the operand in
front of it and the head and body behind it.  Nothing is lost in the division. -/

/-- A tree of a sequence with the siblings before it, nearest first, and after it. -/
structure Site where
  before : List Tree
  marker : Tree
  after : List Tree
deriving Repr

/-- A sequence divided around a marker: what stands before the operand (nearest first),
the operand, the head, the body, and what stands after it. -/
structure Occurrence where
  before : List Tree
  operand : List Tree
  head : Head
  body : List Tree
  after : List Tree
deriving Repr

namespace Occurrence

def start (occurrence : Occurrence) : Nat :=
  occurrence.before.length

def markerIndex (occurrence : Occurrence) : Nat :=
  occurrence.start + occurrence.operand.length

def stop (occurrence : Occurrence) : Nat :=
  occurrence.markerIndex + 2 + occurrence.body.length

def replacement (occurrence : Occurrence) (parenthesize : Bool) : Tree :=
  Replacement.make parenthesize occurrence.operand occurrence.head occurrence.body

end Occurrence

namespace Site

def ofIndex (trees : List Tree) (index : Nat) : Option Site :=
  match trees.drop index with
  | [] => none
  | marker :: after => some ⟨(trees.take index).reverse, marker, after⟩

/-- Divides a sequence into operand, head and body around a marker.  The operand is
sought first and the body last, and at most `reach` trees can be operand. -/
def divide (site : Site) (reach : Nat) : Except Failure Occurrence :=
  match Operand.take reach site.before site.marker with
  | .error failure => .error failure
  | .ok operand =>
      match site.after with
      | [] => .error (Head.missing site.marker)
      | group :: after =>
          match Head.ofGroup group with
          | .error failure => .error failure
          | .ok head =>
              match Body.take head group after with
              | .error failure => .error failure
              | .ok (body, after) =>
                  .ok
                    { before := site.before.drop operand.length
                      operand := operand.reverse
                      head, body, after }

/-- The occurrence around a marker.  A failure elsewhere than at the marker names the
marker too. -/
def resolve (site : Site) (reach : Nat) : Except Failure Occurrence :=
  match site.divide reach with
  | .ok occurrence => .ok occurrence
  | .error failure =>
      .error <|
        if failure.span = site.marker.span then failure
        else { failure with marker := some site.marker.span }

end Site

end Headfirst
