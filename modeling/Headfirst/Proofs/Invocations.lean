import Headfirst.Expansion
import Headfirst.Tree.View

namespace Headfirst

open Headfirst.Tree

/-! A program as its invocations of a macro and the frame around them.

An expansion reads a sequence from left to right.  Where an invocation stands, its argument is
expanded and run as a fragment of its own, and the outcome takes the place of the invocation;
all other trees stay, and the reading goes into those that are groups. -/

structure Invocation where
  name : Token
  bang : Token
  bracket : Bracket
  argument : List Tree

namespace Invocation

def trees (invocation : Invocation) : List Tree :=
  [.leaf invocation.name, .leaf invocation.bang, .group invocation.bracket invocation.argument]

/-- Whether it is this macro that is invoked. -/
def Calls (macroName : String) (invocation : Invocation) : Prop :=
  Expansion.isInvocation macroName invocation.name invocation.bang invocation.bracket = true

/-- The invocation with which a sequence begins. -/
def first? (macroName : String) : List Tree → Option Invocation
  | .leaf name :: .leaf bang :: .group bracket argument :: _ =>
      if Expansion.isInvocation macroName name bang bracket then
        some ⟨name, bang, bracket, argument⟩
      else none
  | _ => none

/-- Three siblings of a sequence, or of one further inside, are the trees of the invocation. -/
inductive StandsIn (invocation : Invocation) : List Tree → Prop where
  | here (rest : List Tree) : StandsIn invocation (invocation.trees ++ rest)
  | later (tree : Tree) {rest : List Tree} (stands : StandsIn invocation rest) :
      StandsIn invocation (tree :: rest)
  | inside (bracket : Bracket) {children : List Tree} (rest : List Tree)
      (stands : StandsIn invocation children) :
      StandsIn invocation (.group bracket children :: rest)

end Invocation

/-- A piece of a program: what an expansion leaves, or an invocation with the reading of its
argument. -/
inductive Part where
  | leaf (token : Token)
  | group (bracket : Bracket) (inside : List Part)
  | call (invocation : Invocation) (inside : List Part)

namespace Part

def read (macroName : String) : List Tree → List Part
  | [] => []
  | .leaf name :: .leaf bang :: .group bracket argument :: rest =>
      if Expansion.isInvocation macroName name bang bracket then
        .call ⟨name, bang, bracket, argument⟩ (read macroName argument) ::
          read macroName rest
      else .leaf name :: read macroName (.leaf bang :: .group bracket argument :: rest)
  | .leaf token :: rest => .leaf token :: read macroName rest
  | .group bracket children :: rest =>
      .group bracket (read macroName children) :: read macroName rest
termination_by trees => sizeAll trees
decreasing_by
  all_goals
    simp only [sizeAll, size]
    omega

mutual

/-- The trees of a program with `place` in the places of its invocations. -/
def fill (place : Invocation → List Tree) : Part → List Tree
  | .leaf token => [.leaf token]
  | .group bracket inside => [.group bracket (fillAll place inside)]
  | .call invocation _ => place invocation

def fillAll (place : Invocation → List Tree) : List Part → List Tree
  | [] => []
  | part :: parts => part.fill place ++ fillAll place parts

end

mutual

/-- The invocations among the parts of a program, from left to right.  None of them lies within
another one. -/
def outermost : Part → List Invocation
  | .leaf _ => []
  | .group _ inside => outermostAll inside
  | .call invocation _ => [invocation]

def outermostAll : List Part → List Invocation
  | [] => []
  | part :: parts => part.outermost ++ outermostAll parts

end

mutual

/-- All invocations, in the order in which they are expanded: those within an argument come
before the invocation that has it. -/
def invocations : Part → List Invocation
  | .leaf _ => []
  | .group _ inside => invocationsAll inside
  | .call invocation inside => invocationsAll inside ++ [invocation]

def invocationsAll : List Part → List Invocation
  | [] => []
  | part :: parts => part.invocations ++ invocationsAll parts

end

mutual

theorem fill_congr {place other : Invocation → List Tree} : ∀ part : Part,
    (∀ invocation ∈ part.outermost, place invocation = other invocation) →
      part.fill place = part.fill other
  | .leaf token => fun _ => rfl
  | .group bracket inside => fun same => by
      rw [fill, fill, fillAll_congr inside same]
  | .call invocation inside => fun same => same invocation List.mem_cons_self

theorem fillAll_congr {place other : Invocation → List Tree} : ∀ parts : List Part,
    (∀ invocation ∈ outermostAll parts, place invocation = other invocation) →
      fillAll place parts = fillAll other parts
  | [] => fun _ => rfl
  | part :: parts => fun same => by
      rw [outermostAll, List.forall_mem_append] at same
      rw [fillAll, fillAll, fill_congr part same.1, fillAll_congr parts same.2]

end

mutual

theorem mem_invocations_of_outermost {invocation : Invocation} : ∀ part : Part,
    invocation ∈ part.outermost → invocation ∈ part.invocations
  | .leaf _ => id
  | .group _ inside => mem_invocationsAll_of_outermost inside
  | .call _ _ => List.mem_append_right _

theorem mem_invocationsAll_of_outermost {invocation : Invocation} : ∀ parts : List Part,
    invocation ∈ outermostAll parts → invocation ∈ invocationsAll parts
  | [] => id
  | part :: parts => fun member => by
      rw [invocationsAll, List.mem_append]
      rcases List.mem_append.mp member with first | later
      · exact .inl (mem_invocations_of_outermost part first)
      · exact .inr (mem_invocationsAll_of_outermost parts later)

end

end Part

/-- The invocations of a macro in a program, at any depth. -/
def Invocation.all (macroName : String) (trees : List Tree) : List Invocation :=
  Part.invocationsAll (Part.read macroName trees)

/-! The steps of a reading. -/

section

variable {macroName : String} {token : Token} {bracket : Bracket} {children rest : List Tree}
  {invocation : Invocation}

/-- Where a token begins no invocation, what follows it is not a `!` and an argument, or it is not
this macro that is invoked with them. -/
theorem Invocation.none_cases (none : first? macroName (.leaf token :: rest) = none) :
    (∃ bang bracket argument others, rest = .leaf bang :: .group bracket argument :: others ∧
        ¬ Expansion.isInvocation macroName token bang bracket = true) ∨
      ∀ bang bracket argument others, rest ≠ .leaf bang :: .group bracket argument :: others := by
  by_cases follows : ∃ bang bracket argument others,
      rest = .leaf bang :: .group bracket argument :: others
  · obtain ⟨bang, bracket, argument, others, rfl⟩ := follows
    refine .inl ⟨bang, bracket, argument, others, rfl, fun calls => ?_⟩
    rw [first?, if_pos calls] at none
    contradiction
  · exact .inr fun bang bracket argument others same =>
      follows ⟨bang, bracket, argument, others, same⟩

namespace Part

open Invocation

theorem read_token (none : first? macroName (.leaf token :: rest) = none) :
    read macroName (.leaf token :: rest) = .leaf token :: read macroName rest := by
  rcases none_cases none with ⟨bang, bracket, argument, others, rfl, other⟩ | other
  · rw [read, if_neg other]
  · rw [read]
    exact other

theorem read_group :
    read macroName (.group bracket children :: rest) =
      .group bracket (read macroName children) :: read macroName rest := by
  rw [read]

theorem read_invocation (calls : invocation.Calls macroName) (rest : List Tree) :
    read macroName (invocation.trees ++ rest) =
      .call invocation (read macroName invocation.argument) :: read macroName rest := by
  obtain ⟨name, bang, bracket, argument⟩ := invocation
  have called : Expansion.isInvocation macroName name bang bracket = true := calls
  change read macroName (.leaf name :: .leaf bang :: .group bracket argument :: rest) = _
  rw [read, if_pos called]

end Part

namespace Invocation

theorem eq_of_first? {trees : List Tree} (first : first? macroName trees = some invocation) :
    ∃ rest, trees = invocation.trees ++ rest ∧ invocation.Calls macroName := by
  unfold first? at first
  split at first
  · split at first
    · rename_i name bang bracket argument rest calls
      cases first
      exact ⟨rest, rfl, calls⟩
    · contradiction
  · contradiction

theorem first?_trees (calls : invocation.Calls macroName) (rest : List Tree) :
    first? macroName (invocation.trees ++ rest) = some invocation :=
  if_pos calls

/-- The reading of a sequence: it is empty, or it begins with a token that is no macro's name, with
a group that is no argument, or with an invocation. -/
theorem induction {motive : List Tree → Prop} (macroName : String) (nil : motive [])
    (token : ∀ token rest, first? macroName (.leaf token :: rest) = none → motive rest →
      motive (.leaf token :: rest))
    (group : ∀ bracket children rest, motive children → motive rest →
      motive (.group bracket children :: rest))
    (invocation : ∀ (invocation : Invocation) rest, invocation.Calls macroName →
      motive invocation.argument → motive rest → motive (invocation.trees ++ rest))
    (trees : List Tree) : motive trees := by
  induction bound : sizeAll trees using Nat.strongRecOn generalizing trees with
  | ind size ih =>
      subst bound
      have smaller (others : List Tree) (less : sizeAll others < sizeAll trees) : motive others :=
        ih _ less others rfl
      cases trees with
      | nil => exact nil
      | cons tree rest =>
          cases tree with
          | group bracket children =>
              refine group bracket children rest (smaller _ ?_) (smaller _ ?_)
              · simp only [sizeAll, size]
                omega
              · simp only [sizeAll, size]
                omega
          | leaf name =>
              cases first : first? macroName (.leaf name :: rest) with
              | none =>
                  refine token name rest first (smaller _ ?_)
                  simp only [sizeAll, size]
                  omega
              | some found =>
                  obtain ⟨others, same, calls⟩ := eq_of_first? first
                  rw [same] at smaller ⊢
                  simp only [Invocation.trees, List.cons_append, List.nil_append, sizeAll,
                    size] at smaller
                  exact invocation found others calls (smaller _ (by omega)) (smaller _ (by omega))

end Invocation

theorem Part.fillAll_read (macroName : String) (trees : List Tree) :
    fillAll Invocation.trees (read macroName trees) = trees := by
  induction trees using Invocation.induction macroName with
  | nil => simp [read, fillAll]
  | token token rest none later =>
      rw [read_token none, fillAll, fill, later]
      rfl
  | group bracket children rest within later =>
      rw [read_group, fillAll, fill, within, later]
      rfl
  | invocation invocation rest calls within later =>
      rw [read_invocation calls, fillAll, fill, later]

namespace Invocation

theorem all_nil : all macroName [] = [] := by
  simp [all, Part.read, Part.invocationsAll]

theorem all_token (none : first? macroName (.leaf token :: rest) = none) :
    all macroName (.leaf token :: rest) = all macroName rest := by
  rw [all, Part.read_token none]
  rfl

theorem all_group :
    all macroName (.group bracket children :: rest) =
      all macroName children ++ all macroName rest := by
  rw [all, Part.read_group]
  rfl

theorem all_call (calls : invocation.Calls macroName) (rest : List Tree) :
    all macroName (invocation.trees ++ rest) =
      all macroName invocation.argument ++ invocation :: all macroName rest := by
  rw [all, Part.read_invocation calls, Part.invocationsAll, Part.invocations]
  simp [all]

/-- A reading finds every invocation: wherever the macro's name, a `!` and a group in brackets are
siblings, these are the trees of one. -/
theorem mem_all {trees : List Tree} :
    invocation ∈ all macroName trees ↔
      invocation.Calls macroName ∧ invocation.StandsIn trees := by
  constructor
  · induction trees using Invocation.induction macroName with
    | nil => simp [all_nil]
    | token token rest none later =>
        rw [all_token none]
        intro member
        obtain ⟨calls, stands⟩ := later member
        exact ⟨calls, .later _ stands⟩
    | group bracket children rest within later =>
        rw [all_group, List.mem_append]
        intro member
        rcases member with member | member
        · obtain ⟨calls, stands⟩ := within member
          exact ⟨calls, .inside _ _ stands⟩
        · obtain ⟨calls, stands⟩ := later member
          exact ⟨calls, .later _ stands⟩
    | invocation other rest called within later =>
        rw [all_call called, List.mem_append, List.mem_cons]
        intro member
        rcases member with member | rfl | member
        · obtain ⟨calls, stands⟩ := within member
          exact ⟨calls, .later _ (.later _ (.inside _ _ stands))⟩
        · exact ⟨called, .here rest⟩
        · obtain ⟨calls, stands⟩ := later member
          exact ⟨calls, .later _ (.later _ (.later _ stands))⟩
  · intro found
    obtain ⟨calls, stands⟩ := found
    induction trees using Invocation.induction macroName with
    | nil => cases stands
    | token token rest none later =>
        rw [all_token none]
        cases stands with
        | here others =>
            have first := none.symm.trans (first?_trees calls others)
            contradiction
        | later _ stands => exact later stands
    | group bracket children rest within later =>
        rw [all_group, List.mem_append]
        cases stands with
        | later _ stands => exact .inr (later stands)
        | inside _ _ stands => exact .inl (within stands)
    | invocation other rest called within later =>
        rw [all_call called, List.mem_append, List.mem_cons]
        -- no invocation begins at the second or third of the three trees
        obtain ⟨name, bang, bracket, argument⟩ := invocation
        obtain ⟨_, _, _, _⟩ := other
        cases stands with
        | here => exact .inr (.inl rfl)
        | later _ stands =>
            cases stands with
            | later _ stands =>
                cases stands with
                | later _ stands => exact .inr (.inr (later stands))
                | inside _ _ stands => exact .inl (within stands)

theorem StandsIn.trans {outer : Invocation} {trees : List Tree}
    (stands : invocation.StandsIn outer.argument) (around : outer.StandsIn trees) :
    invocation.StandsIn trees := by
  induction around with
  | here rest => exact .later _ (.later _ (.inside _ _ stands))
  | later tree around ih => exact .later _ ih
  | inside bracket rest around ih => exact .inside _ _ ih

/-- What is invoked within an argument is invoked where the argument is. -/
theorem mem_all_of_argument {outer : Invocation} {trees : List Tree}
    (member : invocation ∈ all macroName outer.argument) (around : outer ∈ all macroName trees) :
    invocation ∈ all macroName trees := by
  rw [mem_all] at member around ⊢
  exact ⟨member.1, member.2.trans around.2⟩

end Invocation

end

end Headfirst
