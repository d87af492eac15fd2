import Headfirst.Fragment.Read
import Headfirst.Proofs.Invocations
import Headfirst.Proofs.Nesting
import Headfirst.Proofs.Passes

namespace Headfirst

open Headfirst.Tree

/-! What an expansion does, by the invocations of its program.

It comes to groups and invocations from left to right, with fewer and fewer calls left the deeper it
is among groups.  Whatever these calls are enough for is done as if there were no end to them, so an
expansion is that of its invocations, each for itself, up to the first that fails or is missed. -/

/-- What an expansion comes to on its way: a group within which no call may be opened any more, or
an invocation whose argument is expanded.  For the run over it `room` calls may be opened. -/
inductive Station where
  | deep
  | call (room : Nat) (invocation : Invocation)

/-- The stations within a group, for which a call is opened. -/
def Station.within (inside : Nat → List Station) : (room : Nat) → List Station
  | 0 => [.deep]
  | room + 1 => inside room

namespace Part

mutual

/-- The stations of an expansion, in their order. -/
def stations : Part → (room : Nat) → List Station
  | .leaf _, _ => []
  | .group _ inside, room => Station.within (stationsAll inside) room
  | .call invocation inside, room =>
      Station.within (stationsAll inside) room ++ [.call room invocation]

def stationsAll : List Part → (room : Nat) → List Station
  | [], _ => []
  | part :: parts, room => part.stations room ++ stationsAll parts room

end

end Part

namespace Run

def failure? (run : Run) : Option Failure :=
  match run.result with
  | .error failure => some failure
  | .ok _ => none

/-- The trees of a run that succeeds. -/
def children (run : Run) : List Tree :=
  match run.result with
  | .error _ => []
  | .ok fragment => fragment.children

theorem failure?_eq_none {run : Run} :
    run.failure? = none ↔ ∃ fragment, run.result = .ok fragment := by
  unfold failure?
  split <;> simp_all

end Run

namespace Expansion

variable {settings : Settings} {macroName : String} {room : Nat}

theorem expand_nil (tally : Tally) :
    expand settings macroName room [] tally = ⟨[], none, tally⟩ := by
  rw [expand]

theorem expand_token {token : Token} {rest : List Tree}
    (none : Invocation.first? macroName (.leaf token :: rest) = none) (tally : Tally) :
    expand settings macroName room (.leaf token :: rest) tally =
      after [.leaf token] (expand settings macroName room rest tally) := by
  rcases Invocation.none_cases none with ⟨bang, bracket, argument, others, rfl, other⟩ | other
  · rw [expand, if_neg other]
  · rw [expand]
    exact other

theorem expand_group (bracket : Bracket) (children rest : List Tree) (tally : Tally) :
    expand settings macroName room (.group bracket children :: rest) tally =
      let inner := enter settings macroName room children tally
      match inner.halt with
      | some halt => ⟨.group bracket inner.trees :: rest, some halt, inner.tally⟩
      | none =>
          after [.group bracket inner.trees]
            (expand settings macroName room rest inner.tally) := by
  cases halted : (enter settings macroName room children tally).halt <;> simp [expand, halted]

theorem expand_call {invocation : Invocation} (calls : invocation.Calls macroName)
    (rest : List Tree) (tally : Tally) :
    expand settings macroName room (invocation.trees ++ rest) tally =
      let inner := enter settings macroName room invocation.argument tally
      let untouched := { invocation with argument := inner.trees }.trees ++ rest
      match inner.halt with
      | some halt => ⟨untouched, some halt, inner.tally⟩
      | none =>
          let run := (argument invocation.bracket inner.trees).frontWithin room settings
          let told := Tally.addRun inner.tally run
          match run.result with
          | .error failure => ⟨untouched, some (.refused failure), told⟩
          | .ok fragment =>
              after [replacement invocation.name fragment.children] <|
                expand settings macroName room rest
                  (Tally.complete told run macroName invocation.name.loc) := by
  obtain ⟨name, bang, bracket, argument⟩ := invocation
  have called : isInvocation macroName name bang bracket = true := calls
  change expand settings macroName room
    (.leaf name :: .leaf bang :: .group bracket argument :: rest) tally = _
  rw [expand, if_pos called]
  rfl

/-- So many calls that none is missed, neither on the way through the trees nor by a run. -/
def ample (trees : List Tree) : Nat :=
  Stack.copying * Fronting.maxDepth + depthAll trees

end Expansion

namespace Invocation

variable (settings : Settings) (macroName : String)

/-- The argument, once what is invoked within it is expanded. -/
def expanded (invocation : Invocation) : List Tree :=
  (Expansion.expand settings macroName (Expansion.ample invocation.argument) invocation.argument
    {}).trees

/-- The run over an argument, once what is invoked within it is expanded. -/
def run (invocation : Invocation) : Run :=
  (Expansion.argument invocation.bracket (invocation.expanded settings macroName)).front settings

/-- The run for which only so many calls may be opened. -/
def runWithin (room : Nat) (invocation : Invocation) : Run :=
  (Expansion.argument invocation.bracket (invocation.expanded settings macroName)).frontWithin room
    settings

/-- What stands in place of the invocation. -/
def replacement (invocation : Invocation) : List Tree :=
  [Expansion.replacement invocation.name (invocation.run settings macroName).children]

end Invocation

namespace Fragment

variable {settings : Settings} {room : Nat} {fragment result : Fragment}

/-- A run that succeeds with few calls is the run with as many as it takes. -/
theorem frontWithin_of_ok (succeeded : (fragment.frontWithin room settings).result = .ok result) :
    fragment.frontWithin room settings = fragment.front settings := by
  by_cases deep : room / Stack.copying < fragment.tree.depth
  · simp only [frontWithin, if_pos deep] at succeeded
    contradiction
  · simp only [frontWithin, if_neg deep]

theorem frontWithin_of_le (ample : Stack.copying * Fronting.maxDepth ≤ room) :
    fragment.frontWithin room settings = fragment.front settings := by
  by_cases deep : room / Stack.copying < fragment.tree.depth
  · have most : Fronting.maxDepth ≤ room / Stack.copying :=
      (Nat.le_div_iff_mul_le (by decide)).mpr (by rwa [Nat.mul_comm])
    rw [front_tooDeep (Nat.lt_of_le_of_lt most deep)]
    simp only [frontWithin, if_pos deep]
  · simp only [frontWithin, if_neg deep]

end Fragment

namespace Station

variable (settings : Settings) (macroName : String)

/-- The run that is made at a station, if its calls are not used up. -/
def run? : Station → Option Run
  | .deep => none
  | .call room invocation => some (invocation.runWithin settings macroName room)

/-- What halts an expansion at a station. -/
def haltOf : Option Run → Option (Halt Failure)
  | none => some .overflow
  | some run => run.failure?.map .refused

end Station

theorem Invocation.runWithin_of_passed {settings : Settings} {macroName : String} {room : Nat}
    {invocation : Invocation}
    (passed : ([Station.call room invocation].map (Station.run? settings macroName)).findSome?
      Station.haltOf = none) :
    invocation.runWithin settings macroName room = invocation.run settings macroName := by
  have passes : (invocation.runWithin settings macroName room).failure? = none := by
    simpa [Station.run?, Station.haltOf] using passed
  obtain ⟨fragment, succeeded⟩ := Run.failure?_eq_none.mp passes
  exact Fragment.frontWithin_of_ok succeeded

namespace Part

open Station

variable {settings : Settings} {macroName : String}

theorem stationsAll_call (invocation : Invocation) (inside parts : List Part) (room : Nat) :
    stationsAll (.call invocation inside :: parts) room =
      Station.within (stationsAll inside) room ++
        .call room invocation :: stationsAll parts room := by
  rw [stationsAll, stations, List.append_assoc]
  rfl

/-- An expansion that is halted at no station has made the run over every argument. -/
theorem map_run?_within {runs : List Run} {inside : Nat → List Station}
    (within : ∀ room, ((inside room).map (run? settings macroName)).findSome? haltOf = none →
      (inside room).map (run? settings macroName) = runs.map some)
    (room : Nat) (passed :
      ((Station.within inside room).map (run? settings macroName)).findSome? haltOf = none) :
    (Station.within inside room).map (run? settings macroName) = runs.map some := by
  cases room with
  | zero => contradiction
  | succ room => exact within room passed

mutual

theorem map_run?_stations : ∀ (part : Part) (room : Nat),
    ((part.stations room).map (run? settings macroName)).findSome? haltOf = none →
      (part.stations room).map (run? settings macroName) =
        (part.invocations.map (·.run settings macroName)).map some
  | .leaf _, _, _ => rfl
  | .group _ inside, room, passed => map_run?_within (map_run?_stationsAll inside) room passed
  | .call invocation inside, room, passed => by
      rw [stations, List.map_append, List.findSome?_append, Option.or_eq_none_iff] at passed
      obtain ⟨below, here⟩ := passed
      rw [stations, List.map_append, map_run?_within (map_run?_stationsAll inside) room below,
        invocations, List.map_append, List.map_append, List.map_singleton, List.map_singleton,
        List.map_singleton, run?, Invocation.runWithin_of_passed here]

theorem map_run?_stationsAll : ∀ (parts : List Part) (room : Nat),
    ((stationsAll parts room).map (run? settings macroName)).findSome? haltOf = none →
      (stationsAll parts room).map (run? settings macroName) =
        ((invocationsAll parts).map (·.run settings macroName)).map some
  | [], _, _ => rfl
  | part :: parts, room, passed => by
      rw [stationsAll, List.map_append, List.findSome?_append, Option.or_eq_none_iff] at passed
      rw [stationsAll, List.map_append, map_run?_stations part room passed.1,
        map_run?_stationsAll parts room passed.2, invocationsAll, List.map_append, List.map_append]

end

end Part

namespace Expansion

variable {settings : Settings} {macroName : String} {room : Nat}

theorem ample_group {bracket : Bracket} {children rest : List Tree}
    (enough : ample (.group bracket children :: rest) ≤ room) :
    ∃ fewer, room = fewer + 1 ∧ ample children ≤ fewer ∧ ample rest ≤ room := by
  simp only [ample, depthAll, depth] at enough ⊢
  exact ⟨room - 1, by omega, by omega, by omega⟩

theorem ample_leaf {token : Token} {rest : List Tree}
    (enough : ample (.leaf token :: rest) ≤ room) : ample rest ≤ room := by
  simp only [ample, depthAll, depth] at enough ⊢
  omega

theorem ample_call {invocation : Invocation} {rest : List Tree}
    (enough : ample (invocation.trees ++ rest) ≤ room) :
    ∃ fewer, room = fewer + 1 ∧ ample invocation.argument ≤ fewer ∧ ample rest ≤ room :=
  ample_group (ample_leaf (ample_leaf enough))

/-- With ample calls every invocation is come to, and the run over its argument is not cut short. -/
theorem map_run?_of_ample (trees : List Tree) : ∀ room, ample trees ≤ room →
    (Part.stationsAll (Part.read macroName trees) room).map (Station.run? settings macroName) =
      ((Invocation.all macroName trees).map (·.run settings macroName)).map some := by
  induction trees using Invocation.induction macroName with
  | nil =>
      intro room _
      simp [Part.read, Part.stationsAll, Invocation.all_nil]
  | token token rest none later =>
      intro room enough
      rw [Part.read_token none, Invocation.all_token none, ← later room (ample_leaf enough)]
      rfl
  | group bracket children rest within later =>
      intro room enough
      obtain ⟨fewer, rfl, inside, behind⟩ := ample_group enough
      rw [Part.read_group, Invocation.all_group, Part.stationsAll, List.map_append, List.map_append,
        List.map_append, ← later _ behind, ← within fewer inside]
      rfl
  | invocation invocation rest calls within later =>
      intro room enough
      obtain ⟨fewer, rfl, inside, behind⟩ := ample_call enough
      have full : invocation.runWithin settings macroName (fewer + 1) =
          invocation.run settings macroName :=
        Fragment.frontWithin_of_le (Nat.le_of_add_right_le behind)
      rw [Part.read_invocation calls, Invocation.all_call calls, Part.stationsAll_call]
      simp only [List.map_append, List.map_cons]
      rw [← later _ behind, ← within fewer inside, ← full]
      rfl

end Expansion

/-- What is read is not nested so deeply that a call is missed. -/
theorem Fragment.ample_of_read {source file : String} {fragment : Fragment}
    (lexed : read source file = .ok fragment) :
    Expansion.ample fragment.children ≤ Stack.frames := by
  have shallow : depthAll fragment.children ≤ Grammar.maxNesting := by
    unfold read at lexed
    simp only at lexed
    split at lexed
    · rename_i matched
      split at lexed
      · cases lexed
        exact Grammar.depthAll_nested_le _ matched
      · contradiction
    · contradiction
  have room : Stack.copying * Fronting.maxDepth + Grammar.maxNesting ≤ Stack.frames := by decide
  unfold Expansion.ample
  omega

/-- What an expansion comes to, by what it attempts: the runs over the arguments of its invocations,
and the groups that it has no call for.  It halts at the first that fails.  If none does, it leaves
the given trees and has told what each run tolerates. -/
structure Expansion.Follows (attempts : List (Option Run)) (trees : List Tree) (tally : Tally)
    (expansion : Expansion) : Prop where
  halts : expansion.halt = attempts.findSome? Station.haltOf
  leaves : expansion.halt = none → expansion.trees = trees
  tells : expansion.halt = none →
    expansion.tally.tolerated = tally.tolerated ++ attempts.flatMap (·.elim [] (·.tolerated))

namespace Expansion

variable {settings : Settings} {macroName : String} {attempts later : List (Option Run)}
  {trees rest : List Tree} {tally middle : Tally} {expansion : Expansion}

theorem Follows.after (follows : expansion.Follows attempts trees tally) (before : List Tree) :
    (after before expansion).Follows attempts (before ++ trees) tally :=
  ⟨follows.halts, fun whole => congrArg _ (follows.leaves whole), follows.tells⟩

/-- Attempts of which none fails, and what follows them. -/
theorem Follows.prepend (follows : expansion.Follows later trees middle)
    (passed : attempts.findSome? Station.haltOf = none)
    (told : middle.tolerated = tally.tolerated ++ attempts.flatMap (·.elim [] (·.tolerated))) :
    expansion.Follows (attempts ++ later) trees tally := by
  refine ⟨?_, follows.leaves, fun none => ?_⟩
  · rw [follows.halts, List.findSome?_append, passed, Option.none_or]
  · rw [follows.tells none, told, List.flatMap_append, List.append_assoc]

theorem Follows.stopped {halt : Halt Failure}
    (failed : attempts.findSome? Station.haltOf = some halt) (later : List (Option Run)) :
    Follows (attempts ++ later) trees tally ⟨rest, some halt, middle⟩ := by
  refine ⟨?_, nofun, nofun⟩
  rw [List.findSome?_append, failed]
  rfl

theorem Follows.enter {children : List Tree} {inside : Nat → List Station}
    (follows : ∀ room tally, (expand settings macroName room children tally).Follows
      ((inside room).map (Station.run? settings macroName)) trees tally) (room : Nat)
    (tally : Tally) :
    (enter settings macroName room children tally).Follows
      ((Station.within inside room).map (Station.run? settings macroName)) trees tally := by
  cases room with
  | zero =>
      have failed : [none].findSome? Station.haltOf = some .overflow := rfl
      rw [Expansion.enter]
      exact .stopped failed []
  | succ room =>
      rw [Expansion.enter]
      exact follows room tally

/-- If nothing in its argument is missed, an invocation is run over what its argument becomes with
ample calls. -/
theorem frontWithin_argument {invocation : Invocation} (within : ∀ room tally,
      (expand settings macroName room invocation.argument tally).Follows
        ((Part.stationsAll (Part.read macroName invocation.argument) room).map
          (Station.run? settings macroName)) trees tally)
    {room : Nat} (whole : (enter settings macroName room invocation.argument tally).halt = none) :
    (argument invocation.bracket
        (enter settings macroName room invocation.argument tally).trees).frontWithin room settings =
      invocation.runWithin settings macroName room := by
  have inner := Follows.enter within room tally
  have passed := inner.halts.symm.trans whole
  have alone := within (ample invocation.argument) {}
  have none := alone.halts
  rw [map_run?_of_ample _ _ (Nat.le_refl _), Invocation.all,
    ← Part.map_run?_within (Part.map_run?_stationsAll _) room passed, passed] at none
  rw [inner.leaves whole, ← alone.leaves none]
  rfl

/-- Each invocation is expanded for itself, whatever stands around it and has been done before. -/
theorem expand_stations (settings : Settings) (macroName : String) (trees : List Tree) :
    ∀ room tally, (expand settings macroName room trees tally).Follows
      ((Part.stationsAll (Part.read macroName trees) room).map (Station.run? settings macroName))
      (Part.fillAll (·.replacement settings macroName) (Part.read macroName trees)) tally := by
  induction trees using Invocation.induction macroName with
  | nil =>
      intro room tally
      rw [expand_nil]
      exact ⟨by simp [Part.read, Part.stationsAll], fun _ => by simp [Part.read, Part.fillAll],
        fun _ => by simp [Part.read, Part.stationsAll]⟩
  | token token rest none later =>
      intro room tally
      rw [expand_token none, Part.read_token none]
      exact (later room tally).after _
  | group bracket children rest within later =>
      intro room tally
      have inner := Follows.enter within room tally
      rw [expand_group, Part.read_group, Part.stationsAll, List.map_append, Part.stations]
      cases halted : (enter settings macroName room children tally).halt with
      | some halt =>
          simp only [halted]
          exact .stopped (inner.halts.symm.trans halted) _
      | none =>
          simp only [halted]
          rw [inner.leaves halted]
          exact ((later room _).after _).prepend (inner.halts.symm.trans halted)
            (inner.tells halted)
  | invocation invocation rest calls within later =>
      intro room tally
      have inner := Follows.enter within room tally
      rw [Part.read_invocation calls, expand_call calls, Part.stationsAll_call, List.map_append,
        List.map_cons]
      simp only
      cases halted : (enter settings macroName room invocation.argument tally).halt with
      | some halt => exact .stopped (inner.halts.symm.trans halted) _
      | none =>
          have passed := inner.halts.symm.trans halted
          rw [frontWithin_argument within halted, List.append_cons]
          cases ended : (invocation.runWithin settings macroName room).result with
          | error failure =>
              refine .stopped ?_ _
              rw [List.findSome?_append, passed]
              simp [Station.run?, Station.haltOf, Run.failure?, ended]
          | ok fragment =>
              have full : invocation.runWithin settings macroName room =
                  invocation.run settings macroName := Fragment.frontWithin_of_ok ended
              have left : (invocation.run settings macroName).children = fragment.children := by
                rw [← full, Run.children, ended]
              rw [Part.fillAll, Part.fill, Invocation.replacement, left]
              refine ((later room _).after _).prepend ?_ ?_
              · rw [List.findSome?_append, passed]
                simp [Station.run?, Station.haltOf, Run.failure?, ended]
              · simp [Tally.complete, Tally.addRun, inner.tells halted, Station.run?]

theorem findSome?_haltOf (runs : List Run) :
    (runs.map some).findSome? Station.haltOf = (runs.findSome? Run.failure?).map .refused := by
  induction runs with
  | nil => rfl
  | cons run runs ih =>
      cases failed : run.failure? with
      | some failure => simp [Station.haltOf, failed]
      | none => simpa [Station.haltOf, failed] using ih

/-- With ample calls, or wherever nothing is missed, an expansion is what its runs are. -/
theorem expand_follows (settings : Settings) (macroName : String) {room : Nat} (tally : Tally)
    (whole : ample trees ≤ room ∨ (expand settings macroName room trees tally).halt = none) :
    (expand settings macroName room trees tally).Follows
      (((Invocation.all macroName trees).map (·.run settings macroName)).map some)
      (Part.fillAll (·.replacement settings macroName) (Part.read macroName trees)) tally := by
  have follows := expand_stations settings macroName trees room tally
  rcases whole with enough | none
  · rwa [map_run?_of_ample trees room enough] at follows
  · rwa [Part.map_run?_stationsAll _ room (follows.halts.symm.trans none)] at follows

/-- Where all runs succeed, an expansion with ample calls leaves the replacements in their frame. -/
theorem expand_leaves (succeeds : ∀ invocation ∈ Invocation.all macroName trees,
      ∃ expansion, (invocation.run settings macroName).result = .ok expansion)
    {room : Nat} (enough : ample trees ≤ room) (tally : Tally) :
    (expand settings macroName room trees tally).halt = none ∧
      (expand settings macroName room trees tally).trees =
        Part.fillAll (·.replacement settings macroName) (Part.read macroName trees) := by
  have follows := expand_follows settings macroName tally (.inl enough)
  have passes : ((Invocation.all macroName trees).map
      (·.run settings macroName)).findSome? Run.failure? = none := by
    rw [List.findSome?_map, List.findSome?_eq_none_iff]
    intro invocation member
    exact Run.failure?_eq_none.mpr (succeeds invocation member)
  have whole := follows.halts
  rw [findSome?_haltOf, passes] at whole
  exact ⟨whole, follows.leaves whole⟩

end Expansion

/-- Where all runs within an argument succeed, it is expanded to the replacements in their frame. -/
theorem Invocation.expanded_eq {settings : Settings} {macroName : String} {invocation : Invocation}
    (succeeds : ∀ inner ∈ all macroName invocation.argument,
      ∃ expansion, (inner.run settings macroName).result = .ok expansion) :
    invocation.expanded settings macroName =
      Part.fillAll (·.replacement settings macroName)
        (Part.read macroName invocation.argument) :=
  (Expansion.expand_leaves succeeds (Nat.le_refl _) {}).2

end Headfirst
