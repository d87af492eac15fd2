import Headfirst.Occurrence.Basic

namespace Headfirst

/-! What happens while a fragment is worked on, in the order in which it happens. -/

inductive Event where
  | read (file : String) (trees : Nat)
  | started (markers : Nat)
  | operandFound (marker start : Nat)
  | headParsed (word : String) (construct : Construct)
  | chainTaken (trees : Nat)
  | spliced (occurrence : Occurrence) (replacement : Tree)
  | tolerated (failure : Failure)
  | passDone (pass splices : Nat)
  | finished (splices passes tolerated : Nat)
  | failed (failure : Failure)
  | expanded (macroName : String) (loc : Loc)
  | expansionDone (invocations : Nat) (macroName : String)
deriving Repr

namespace Head

def leadingWord? (head : Head) : Option String :=
  head.keywords.head?.map (·.text)

end Head

namespace Site

def bodyEvents (head : Head) (group : Tree) (after : List Tree) : List Event :=
  match Body.take head group after with
  | .ok (_ :: first :: chain, _) => [.chainTaken (first :: chain).length]
  | _ => []

def headEvents : (after : List Tree) → List Event
  | [] => []
  | group :: after =>
      match Head.ofGroup group with
      | .error _ => []
      | .ok head =>
          (head.leadingWord?.toList.map (.headParsed · head.construct)) ++
            bodyEvents head group after

def events (site : Site) (reach : Nat) : List Event :=
  match Operand.take reach site.before site.marker with
  | .error _ => []
  | .ok operand =>
      let marker := site.before.length
      .operandFound marker (marker - operand.length) :: headEvents site.after

end Site

end Headfirst
