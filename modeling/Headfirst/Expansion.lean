import Headfirst.Fronting.Fixpoint

namespace Headfirst

/-! Macro invocations in a surrounding program.

An invocation is the macro's name, `!` and a group in brackets.  Its expansion is what
the group's contents become as a fragment of their own; invocations within it are
expanded first. -/

/-- What an expansion has done so far.  The events are newest first. -/
structure Tally where
  invocations : Nat := 0
  tolerated : List Failure := []
  events : List Event := []
deriving Repr

/-- What keeps something from being finished: a reason that is given, or the end of the stack. -/
inductive Halt (α : Type) where
  | refused (reason : α)
  | overflow
deriving DecidableEq, Repr

/-- The trees an expansion leaves behind.  After a halt they hold what was expanded
before it. -/
structure Expansion where
  trees : List Tree
  halt : Option (Halt Failure)
  tally : Tally
deriving Repr

namespace Fragment

/-- A run for which only so many calls may still be opened. -/
def frontWithin (room : Nat) (settings : Settings) (fragment : Fragment) : Run :=
  if room / Stack.copying < fragment.tree.depth then
    stopped ⟨.treeTooDeep, fragment.tree.span, none⟩ {}
  else fragment.front settings

end Fragment

namespace Expansion

def isInvocation (macroName : String) (name bang : Token) (bracket : Bracket) : Bool :=
  name.kind == .ident && name.text == macroName && bang.isPunct "!" &&
    bracket.delimiter != .invisible

def argument (bracket : Bracket) (children : List Tree) : Fragment where
  bracket :=
    { delimiter := .invisible
      loc := bracket.loc
      endLoc := bracket.endLoc
      closeLeading := bracket.closeLeading }
  children := children

/-- What stands in place of an invocation: the contents, at the place of its name. -/
def replacement (name : Token) (children : List Tree) : Tree :=
  .group { delimiter := .invisible, loc := name.loc, leading := name.leading } children

def after (before : List Tree) (expansion : Expansion) : Expansion :=
  { expansion with trees := before ++ expansion.trees }

namespace Tally

def addRun (tally : Tally) (run : Run) : Tally :=
  { tally with events := run.events.reverse ++ tally.events }

def complete (tally : Tally) (run : Run) (macroName : String) (loc : Loc) : Tally where
  invocations := tally.invocations + 1
  tolerated := tally.tolerated ++ run.tolerated
  events := .expanded macroName loc :: tally.events

end Tally

mutual

/-- Expands a sequence while `room` calls may still be opened. -/
def expand (settings : Settings) (macroName : String) :
    (room : Nat) → List Tree → Tally → Expansion
  | _, [], tally => ⟨[], none, tally⟩
  | room, .leaf name :: .leaf bang :: .group bracket children :: rest, tally =>
      if isInvocation macroName name bang bracket then
        let inner := enter settings macroName room children tally
        let untouched := .leaf name :: .leaf bang :: .group bracket inner.trees :: rest
        match inner.halt with
        | some halt => ⟨untouched, some halt, inner.tally⟩
        | none =>
            let run := (argument bracket inner.trees).frontWithin room settings
            let tally := Tally.addRun inner.tally run
            match run.result with
            | .error failure => ⟨untouched, some (.refused failure), tally⟩
            | .ok fragment =>
                after [replacement name fragment.children] <|
                  expand settings macroName room rest
                    (Tally.complete tally run macroName name.loc)
      else
        after [.leaf name] <|
          expand settings macroName room (.leaf bang :: .group bracket children :: rest) tally
  | room, .leaf token :: rest, tally =>
      after [.leaf token] (expand settings macroName room rest tally)
  | room, .group bracket children :: rest, tally =>
      let inner := enter settings macroName room children tally
      let group := .group bracket inner.trees
      match inner.halt with
      | some halt => ⟨group :: rest, some halt, inner.tally⟩
      | none => after [group] (expand settings macroName room rest inner.tally)
termination_by _ trees => 2 * Tree.sizeAll trees
decreasing_by
  all_goals
    simp only [Tree.sizeAll, Tree.size]
    omega

/-- Opens another call for the children of a group. -/
def enter (settings : Settings) (macroName : String) :
    (room : Nat) → List Tree → Tally → Expansion
  | 0, children, tally => ⟨children, some .overflow, tally⟩
  | room + 1, children, tally => expand settings macroName room children tally
termination_by _ children => 2 * Tree.sizeAll children + 1
decreasing_by omega

end

end Expansion

namespace Fragment

open Headfirst.Tree

/-- Expands the invocations of a macro; an empty name stands for the one in the settings.
Invisible groups are dissolved as in `front`, but not after a halt. -/
def expand (settings : Settings) (macroName : String) (fragment : Fragment) :
    Fragment × Option (Halt Failure) × Tally :=
  let macroName := if macroName = "" then settings.macroName else macroName
  let expansion := Expansion.expand settings macroName Stack.frames fragment.children {}
  match expansion.halt with
  | some halt => ({ fragment with children := expansion.trees }, some halt, expansion.tally)
  | none =>
      let children :=
        if settings.keepGroups then expansion.trees else flattenAll expansion.trees
      let tally := expansion.tally
      ({ fragment with children }, none,
        { tally with events := .expansionDone tally.invocations macroName :: tally.events })

end Fragment

end Headfirst
