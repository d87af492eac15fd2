import Headfirst.Fragment.Source
import Headfirst.Proofs.Again
import Headfirst.Proofs.Stations
import Headfirst.Tree.Edit

namespace Headfirst

open Headfirst.Tree

/-! What an expansion makes of a program.

Each invocation gives way to what its argument becomes, and the frame around the invocations stays
as it is.  Where groups are dissolved, the trivia in front of an invocation moves to the first
tree of its expansion, if there is one. -/

/-- The macro that is expanded under a name; without a name it is the one in the settings. -/
def Settings.called (settings : Settings) (macroName : String) : String :=
  if macroName = "" then settings.macroName else macroName

namespace Invocation

variable {settings : Settings} {macroName : String} {invocation : Invocation}

/-- The invocations among the stations of an expansion are those of the program. -/
theorem mem_of_station_within {room left : Nat} {parts : List Part} {inside : Nat → List Station}
    (within : ∀ room, .call left invocation ∈ inside room → invocation ∈ Part.invocationsAll parts)
    (member : .call left invocation ∈ Station.within inside room) :
    invocation ∈ Part.invocationsAll parts := by
  cases room with
  | zero => cases List.mem_singleton.mp member
  | succ room => exact within room member

end Invocation

namespace Part

open Invocation (mem_of_station_within)

variable {macroName : String} {invocation : Invocation} {room left : Nat}

mutual

theorem mem_of_station : ∀ (part : Part) (room : Nat),
    .call left invocation ∈ part.stations room → invocation ∈ part.invocations
  | .leaf _, _, member => nomatch member
  | .group _ inside, _, member => mem_of_station_within (mem_of_stationAll inside) member
  | .call other inside, room, member => by
      rw [stations, List.mem_append] at member
      rw [invocations, List.mem_append]
      rcases member with within | here
      · exact .inl (mem_of_station_within (mem_of_stationAll inside) within)
      · cases List.mem_singleton.mp here
        exact .inr List.mem_cons_self

theorem mem_of_stationAll : ∀ (parts : List Part) (room : Nat),
    .call left invocation ∈ stationsAll parts room → invocation ∈ invocationsAll parts
  | [], _, member => nomatch member
  | part :: parts, room, member => by
      rw [stationsAll, List.mem_append] at member
      rw [invocationsAll, List.mem_append]
      rcases member with first | later
      · exact .inl (mem_of_station part room first)
      · exact .inr (mem_of_stationAll parts room later)

end

end Part

namespace Fragment

variable {settings : Settings} {macroName : String} {fragment result : Fragment}

theorem flattenAll_run (dissolved : settings.keepGroups = false) (fragment : Fragment) :
    flattenAll (fragment.front settings).children = (fragment.front settings).children := by
  unfold Run.children
  split
  · rfl
  · rename_i result succeeded
    obtain ⟨final, _, _, -, rfl, -⟩ := front_final succeeded
    rw [settle, dissolved, if_neg Bool.false_ne_true, flattenAll_flattenAll]

/-- What an invocation becomes once the invisible groups of the program are dissolved, if they
are. -/
def filling (settings : Settings) (name : Token) (children : List Tree) : List Tree :=
  if settings.keepGroups then [Expansion.replacement name children]
  else prepend name.leading children

theorem filling_eq_nil {name : Token} {children : List Tree} :
    filling settings name children = [] ↔ settings.keepGroups = false ∧ children = [] := by
  unfold filling
  cases settings.keepGroups with
  | true => simp
  | false => cases children <;> simp [prepend]

/-- The trivia in front of a macro's name stands in front of what takes the place of the
invocation. -/
theorem exists_filling_eq_cons {name : Token} {children : List Tree} :
    (∃ first rest behind, filling settings name children = first :: rest ∧
        first.leading = name.leading ++ behind) ↔
      settings.keepGroups = true ∨ children ≠ [] := by
  constructor
  · intro leads
    obtain ⟨first, rest, behind, same, -⟩ := leads
    cases groups : settings.keepGroups with
    | true => exact .inl rfl
    | false =>
        refine .inr fun empty => ?_
        rw [filling_eq_nil.mpr ⟨groups, empty⟩] at same
        contradiction
  · intro kept
    unfold filling
    cases groups : settings.keepGroups with
    | true => exact ⟨_, [], "", rfl, by simp [Expansion.replacement, Tree.leading]⟩
    | false =>
        cases children with
        | nil => simp [groups] at kept
        | cons tree trees => exact ⟨_, trees, tree.leading, rfl, leading_withLeading ..⟩

theorem settle_replacement (invocation : Invocation) :
    settle settings (invocation.replacement settings macroName) =
      filling settings invocation.name (invocation.run settings macroName).children := by
  unfold settle filling
  split
  · rfl
  · rename_i dissolved
    rw [Invocation.replacement, flattenAll, flattenAll, List.append_nil, Expansion.replacement,
      flatten, if_pos rfl, Invocation.run, flattenAll_run (Bool.eq_false_iff.mpr dissolved)]

end Fragment

namespace Part

open Headfirst.Fragment (settle)

variable {settings : Settings} {macroName : String}

/-- Where the frame has no invisible groups, only those within what is filled in are dissolved. -/
theorem settle_fillAll {trees : List Tree} (visible : areVisible trees = true)
    (place : Invocation → List Tree) :
    settle settings (fillAll place (read macroName trees)) =
      fillAll (fun invocation => settle settings (place invocation)) (read macroName trees) := by
  unfold settle
  split
  · rfl
  · induction trees using Invocation.induction macroName with
    | nil => simp [read, fillAll, flattenAll]
    | token token rest none later =>
        rw [read_token none, fillAll, fillAll, fill, fill, flattenAll_append, later visible]
        rfl
    | group bracket children rest within later =>
        simp only [areVisible, isVisible, Bool.and_eq_true, bne_iff_ne, ne_eq] at visible
        rw [read_group, fillAll, fillAll, fill, fill, flattenAll_append, later visible.2,
          flattenAll, flattenAll, flatten, if_neg visible.1.1, within visible.1.2,
          List.append_nil]
    | invocation invocation rest calls within later =>
        rw [areVisible_append, Bool.and_eq_true] at visible
        rw [read_invocation calls, fillAll, fillAll, fill, fill, flattenAll_append,
          later visible.2]

end Part

namespace Fragment

variable {settings : Settings} {macroName : String} {fragment result : Fragment}

theorem eq_of_whole (whole : (fragment.expand settings macroName).2.1 = none) :
    fragment.expand settings macroName =
      ((fragment.expand settings macroName).1, none, (fragment.expand settings macroName).2.2) :=
  Prod.ext rfl (Prod.ext whole rfl)

/-- Groups are dissolved only after an expansion that is not halted. -/
theorem halt_expand (settings : Settings) (macroName : String) (fragment : Fragment) :
    (fragment.expand settings macroName).2.1 =
      (Expansion.expand settings (settings.called macroName) Stack.frames fragment.children
        {}).halt := by
  rw [expand]
  simp only [Settings.called]
  split
  · rename_i halted
    exact halted.symm
  · rename_i whole
    exact whole.symm

/-- An expansion fails as the first run over an argument that does. -/
theorem expand_failure (settings : Settings) (macroName : String)
    (enough : Expansion.ample fragment.children ≤ Stack.frames) :
    (fragment.expand settings macroName).2.1 =
      (((Invocation.all (settings.called macroName) fragment.children).map
        (·.run settings (settings.called macroName))).findSome? Run.failure?).map .refused := by
  have follows := Expansion.expand_follows settings (settings.called macroName) {} (.inl enough)
  rw [halt_expand, follows.halts, Expansion.findSome?_haltOf]

theorem expand_ne_overflow (settings : Settings) (macroName : String)
    (enough : Expansion.ample fragment.children ≤ Stack.frames) :
    (fragment.expand settings macroName).2.1 ≠ some .overflow := by
  rw [expand_failure settings macroName enough, ne_eq, Option.map_eq_some_iff]
  simp

/-- An expansion that is not halted: all runs succeed, the trees are those of the frame with the
replacements in it, and the warnings are those of the runs. -/
theorem expand_whole {tally : Tally}
    (succeeded : fragment.expand settings macroName = (result, none, tally)) :
    let name := settings.called macroName
    (∀ invocation ∈ Invocation.all name fragment.children,
      ∃ expansion, (invocation.run settings name).result = .ok expansion) ∧
    result = { fragment with
      children := settle settings <|
        Part.fillAll (·.replacement settings name) (Part.read name fragment.children) } ∧
    tally.tolerated = (Invocation.all name fragment.children).flatMap
      (·.run settings name |>.tolerated) := by
  intro name
  have whole : (Expansion.expand settings name Stack.frames fragment.children {}).halt = none := by
    rw [← halt_expand, succeeded]
  have follows := Expansion.expand_follows _ _ _ (.inr whole)
  have passes := follows.halts
  rw [whole, Expansion.findSome?_haltOf, eq_comm, Option.map_eq_none_iff] at passes
  refine ⟨?_, ?_⟩
  · intro invocation member
    have run := List.findSome?_eq_none_iff.mp passes _ (List.mem_map_of_mem member)
    exact Run.failure?_eq_none.mp run
  · rw [← follows.leaves whole]
    have told := follows.tells whole
    rw [List.flatMap_map, List.flatMap_map] at told
    simp only [expand] at succeeded
    split at succeeded
    · cases succeeded
    · cases succeeded
      exact ⟨rfl, told⟩

/-- An expansion over a program without invisible groups, as its frame with what the invocations
become. -/
theorem expand_filled {tally : Tally} (visible : areVisible fragment.children = true)
    (succeeded : fragment.expand settings macroName = (result, none, tally)) :
    result = { fragment with
      children := Part.fillAll
        (fun invocation => filling settings invocation.name
          (invocation.run settings (settings.called macroName)).children)
        (Part.read (settings.called macroName) fragment.children) } := by
  obtain ⟨-, same, -⟩ := expand_whole succeeded
  rw [same, Part.settle_fillAll visible]
  simp only [settle_replacement]

theorem children_front_nil (settings : Settings) (bracket : Bracket) :
    (front settings ⟨bracket, []⟩).children = [] := by
  unfold Run.children
  split
  · rfl
  · rename_i result succeeded
    obtain ⟨shallow, room, -⟩ := front_admitted succeeded
    obtain ⟨still, -⟩ := front_still shallow room rfl
    rw [succeeded] at still
    cases still
    rcases settle_cases settings [] with kept | dissolved
    · exact kept
    · exact dissolved

/-- An expansion keeps the frame of its program: all tokens, brackets and trivia outside the
invocations stay as they are.  The trivia in front of an invocation comes to stand in front of its
expansion.  It is lost, where groups are dissolved, exactly if the expansion is empty, as that of an
empty argument is. -/
theorem expand_frame {source file : String} {tally : Tally}
    (lexed : read source file = .ok fragment)
    (succeeded : fragment.expand settings macroName = (result, none, tally)) :
    let parts := Part.read (settings.called macroName) fragment.children
    let run (invocation : Invocation) := invocation.run settings (settings.called macroName)
    let place (invocation : Invocation) :=
      filling settings invocation.name (run invocation).children
    Part.fillAll Invocation.trees parts = fragment.children ∧
    result = { fragment with children := Part.fillAll place parts } ∧
    ∀ invocation ∈ Part.outermostAll parts,
      (∃ expansion, (run invocation).result = .ok expansion) ∧
      ((∃ first rest behind, place invocation = first :: rest ∧
          first.leading = invocation.name.leading ++ behind) ↔
        settings.keepGroups = true ∨ (run invocation).children ≠ []) ∧
      (place invocation = [] ↔
        settings.keepGroups = false ∧ (run invocation).children = []) ∧
      (invocation.argument = [] → (run invocation).children = []) := by
  intro parts run place
  obtain ⟨runs, -⟩ := expand_whole succeeded
  refine ⟨Part.fillAll_read _ _, expand_filled (areVisible_of_read lexed) succeeded, ?_⟩
  intro invocation member
  refine ⟨runs invocation (Part.mem_invocationsAll_of_outermost parts member),
    exists_filling_eq_cons, filling_eq_nil, ?_⟩
  intro empty
  have nothing : invocation.expanded settings (settings.called macroName) = [] := by
    rw [Invocation.expanded, empty, Expansion.expand_nil]
  simp only [run, Invocation.run, nothing]
  exact children_front_nil ..

/-- The comment in front of an invocation comes to stand in front of its expansion. -/
theorem expand_frame_reference :
    ∃ fragment result tally,
      read "a; /* c */ sonic_spin!(x::(&)) b" "main.rs" = .ok fragment ∧
      fragment.expand {} "" = (result, none, tally) ∧ result.tree.render = "a; /* c */ & x b" ∧
      ∃ invocation ∈ Part.outermostAll (Part.read "sonic_spin" fragment.children),
        ∃ first rest behind,
          filling {} invocation.name (invocation.run {} "sonic_spin").children = first :: rest ∧
            first.leading = " /* c */ " ++ behind := by
  have reading : (read "a; /* c */ sonic_spin!(x::(&)) b" "main.rs").toOption.any fun fragment =>
      (fragment.expand {} "").2.1.isNone &&
        (fragment.expand {} "").1.tree.render == "a; /* c */ & x b" &&
        (Part.outermostAll (Part.read "sonic_spin" fragment.children)).any fun invocation =>
          invocation.name.leading == " /* c */ " &&
            !(invocation.run {} "sonic_spin").children.isEmpty := by
    decide +kernel
  obtain ⟨fragment, lexed, reading⟩ := exists_ok_of_any reading
  simp only [Bool.and_eq_true, Option.isNone_iff_eq_none, beq_iff_eq, List.any_eq_true,
    Bool.not_eq_true', List.isEmpty_eq_false_iff] at reading
  obtain ⟨⟨whole, printed⟩, invocation, member, leading, some⟩ := reading
  have succeeded := eq_of_whole whole
  obtain ⟨-, -, frame⟩ := expand_frame lexed succeeded
  obtain ⟨-, leads, -⟩ := frame invocation member
  refine ⟨fragment, _, _, lexed, succeeded, printed, invocation, member, ?_⟩
  rw [← leading]
  exact leads.mpr (.inr some)

/-- The comment in front of an empty invocation is lost: nothing of the result has it in its
trivia. -/
theorem expand_frame_empty :
    ∃ fragment result tally,
      read "a /* c */ sonic_spin!() b" "main.rs" = .ok fragment ∧
      fragment.expand {} "" = (result, none, tally) ∧ result.tree.render = "a b" ∧
      (∃ invocation ∈ Part.outermostAll (Part.read "sonic_spin" fragment.children),
        invocation.name.leading = " /* c */ ") ∧
      ∀ piece ∈ result.tree.pieces, ¬ " /* c */ ".toList <:+: piece.leading.toList := by
  have reading : (read "a /* c */ sonic_spin!() b" "main.rs").toOption.any fun fragment =>
      (fragment.expand {} "").2.1.isNone &&
        (fragment.expand {} "").1.tree.render == "a b" &&
        (Part.outermostAll (Part.read "sonic_spin" fragment.children)).any
          (·.name.leading == " /* c */ ") &&
        (fragment.expand {} "").1.tree.pieces.all
          fun piece => ¬ " /* c */ ".toList <:+: piece.leading.toList := by
    decide +kernel
  obtain ⟨fragment, lexed, reading⟩ := exists_ok_of_any reading
  simp only [Bool.and_eq_true, Option.isNone_iff_eq_none, beq_iff_eq, List.any_eq_true,
    List.all_eq_true, decide_eq_true_eq] at reading
  obtain ⟨⟨⟨whole, printed⟩, invocation, member, leading⟩, lost⟩ := reading
  exact ⟨fragment, _, _, lexed, eq_of_whole whole, printed, ⟨invocation, member, leading⟩, lost⟩

end Fragment

end Headfirst
