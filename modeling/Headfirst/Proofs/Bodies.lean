import Headfirst.Proofs.Division
import Headfirst.Proofs.Links
import Headfirst.Proofs.Table

namespace Headfirst

open Headfirst.Tree Table
open scoped Computability

/-! What a construct takes behind its head, as a language of trees.

A conditional takes its block and as many links `else if <condition> { .. }` as there are, and the
last `else { .. }` if there is one.  A condition goes up to the first block, so a sequence can be
cut into links in one way only, and an `else` that begins neither a link nor the last block is an
error. -/

namespace Table

def braces : Language Tree :=
  one Body.isBlock

/-- The trees of a condition: at least one, and none of them a block. -/
def condition : Language Tree :=
  {trees | trees ≠ [] ∧ ∀ tree ∈ trees, Body.isBlock tree = false}

def guarded : Language Tree :=
  word "if" * (condition * braces)

def elseIf : Language Tree :=
  word "else" * guarded

def elseBlock : Language Tree :=
  word "else" * braces

end Table

/-- What a construct takes behind its head. -/
def Construct.body : Construct → Language Tree
  | matchArms | whileLoop | whileLet | forIn => braces
  | ifThen | ifLet => braces * elseIf∗ * opt elseBlock
  | _ => 1

namespace Body

variable {trees chain links link last after rest behind : List Tree} {tree word : Tree}

theorem guardedBlock_eq_some_iff :
    guardedBlock trees = some (link, after) ↔
      link ++ after = trees ∧ link ∈ condition * braces := by
  constructor
  · intro found
    refine ⟨guardedBlock_append found, ?_⟩
    unfold guardedBlock at found
    split at found
    · rename_i first others block behind taken dropped
      cases found
      have free : ∀ tree ∈ first :: others, isBlock tree = false := by
        intro tree member
        rw [← taken] at member
        simpa using List.all_eq_true.mp List.all_takeWhile tree member
      have closes : isBlock block = true := by
        have stops := List.head?_dropWhile_not (!isBlock ·) trees
        rw [dropped] at stops
        simpa using stops
      exact Language.append_mem_mul ⟨by simp, free⟩ (cons_mem_one.mpr ⟨closes, rfl⟩)
    · contradiction
  · rintro ⟨rfl, front, ⟨nonempty, free⟩, _, ⟨block, rfl, closes⟩, rfl⟩
    rw [List.append_assoc]
    exact guardedBlock_condition nonempty free closes after

/-! The ways in which a chain goes on. -/

/-- Neither a block nor a condition with its block begins a sequence. -/
def Dangling (behind : List Tree) : Prop :=
  ∀ front after, behind = front ++ after → front ∉ braces ∧ front ∉ guarded

theorem not_isBlock_of_isKeyword {text : String} (is : tree.isKeyword text = true) :
    isBlock tree = false := by
  obtain ⟨keyword, rfl, -⟩ := exists_word_of_isKeyword is
  rfl

/-- A chain ends where no `else` follows. -/
theorem elseChain_stops (stops : ∀ next, rest.head? = some next → isElse next = false) :
    elseChain rest = .ok ([], rest) := by
  cases rest with
  | nil => rw [elseChain]
  | cons next rest => exact elseChain_none (stops next rfl)

theorem elseChain_elseBlock (member : last ∈ elseBlock) (after : List Tree) :
    elseChain (last ++ after) = .ok (last, after) := by
  obtain ⟨_, ⟨word, rfl, opens⟩, _, ⟨block, rfl, closes⟩, rfl⟩ := member
  exact elseChain_block opens closes

/-- A link is taken, and the chain goes on behind it. -/
theorem elseChain_elseIf (member : link ∈ elseIf) (rest : List Tree) :
    elseChain (link ++ rest) =
      (elseChain rest).map fun parts => (link ++ parts.1, parts.2) := by
  obtain ⟨_, ⟨word, rfl, opens⟩, _, ⟨_, ⟨next, rfl, isIf⟩, guard, inside, rfl⟩, rfl⟩ := member
  have found : guardedBlock (guard ++ rest) = some (guard, rest) :=
    guardedBlock_eq_some_iff.mpr ⟨rfl, inside⟩
  exact elseChain_link opens (not_isBlock_of_isKeyword isIf) isIf found

/-- An `else` with nothing behind it that belongs to it is an error. -/
theorem elseChain_dangling (opens : isElse word = true) (dangling : Dangling behind) :
    ∃ failure, failure.fault.category = .body ∧ elseChain (word :: behind) = .error failure := by
  cases behind with
  | nil => exact ⟨_, rfl, elseChain_end opens⟩
  | cons next rest =>
      have noBlock : isBlock next = false := by
        rw [Bool.eq_false_iff]
        exact fun block => (dangling [next] rest rfl).1 (cons_mem_one.mpr ⟨block, rfl⟩)
      cases isIf : next.isKeyword "if" with
      | false => exact ⟨_, rfl, elseChain_stray opens noBlock isIf⟩
      | true =>
          cases found : guardedBlock rest with
          | none => exact ⟨_, rfl, elseChain_unguarded opens noBlock isIf found⟩
          | some parts =>
              obtain ⟨same, inside⟩ := guardedBlock_eq_some_iff.mp found
              have begins : next :: rest = (next :: parts.1) ++ parts.2 := by
                rw [List.cons_append, same]
              exact absurd (cons_mem_one_mul.mpr ⟨isIf, inside⟩) (dangling _ _ begins).2

/-- Links are taken, whatever follows them. -/
theorem elseChain_links (member : links ∈ elseIf∗) (rest : List Tree) :
    elseChain (links ++ rest) =
      (elseChain rest).map fun parts => (links ++ parts.1, parts.2) := by
  obtain ⟨parts, rfl, linked⟩ := Language.mem_kstar.mp member
  clear member
  induction parts with
  | nil =>
      rw [List.flatten_nil, List.nil_append]
      cases elseChain rest <;> rfl
  | cons link parts ih =>
      rw [List.forall_mem_cons] at linked
      rw [List.flatten_cons, List.append_assoc, elseChain_elseIf linked.1, ih linked.2]
      cases elseChain rest with
      | error failure => rfl
      | ok taken => simp [Except.map]

/-- Every sequence is links, and something that begins with no link. -/
theorem exists_links (trees : List Tree) :
    ∃ links rest, links ++ rest = trees ∧ links ∈ elseIf∗ ∧
      ∀ link after, rest = link ++ after → link ∉ elseIf := by
  by_cases begins : ∃ link after, trees = link ++ after ∧ link ∈ elseIf
  · obtain ⟨link, after, rfl, member⟩ := begins
    have shorter : after.length < (link ++ after).length := by
      obtain ⟨_, ⟨word, rfl, -⟩, guard, -, rfl⟩ := member
      simp only [List.cons_append, List.length_cons, List.length_append]
      omega
    obtain ⟨links, rest, rfl, linked, none⟩ := exists_links after
    refine ⟨link ++ links, rest, List.append_assoc .., ?_, none⟩
    rw [← Language.one_add_self_mul_kstar_eq_kstar]
    exact .inr (Language.append_mem_mul member linked)
  · refine ⟨[], trees, rfl, Language.nil_mem_kstar _, fun link after same member => ?_⟩
    exact begins ⟨link, after, same, member⟩
termination_by trees.length

/-- A chain ends where no `else` follows its links, or with the last block. -/
inductive Ending : (rest last after : List Tree) → Prop where
  | stops {rest : List Tree} (noElse : ∀ next, rest.head? = some next → isElse next = false) :
      Ending rest [] rest
  | closes {last : List Tree} (member : last ∈ elseBlock) (after : List Tree) :
      Ending (last ++ after) last after

theorem elseChain_cases (trees : List Tree) :
    ∃ links rest, links ++ rest = trees ∧ links ∈ elseIf∗ ∧
      ((∃ last after, Ending rest last after) ∨
        ∃ word behind, rest = word :: behind ∧ isElse word = true ∧ Dangling behind) := by
  obtain ⟨links, rest, same, linked, none⟩ := exists_links trees
  refine ⟨links, rest, same, linked, ?_⟩
  cases rest with
  | nil => exact .inl ⟨_, _, .stops (by simp)⟩
  | cons word behind =>
      cases opens : isElse word with
      | false => exact .inl ⟨_, _, .stops (by simpa using opens)⟩
      | true =>
          by_cases closes : ∃ last after, behind = last ++ after ∧ last ∈ braces
          · obtain ⟨last, after, rfl, member⟩ := closes
            exact .inl ⟨_, _, .closes (cons_mem_one_mul.mpr ⟨opens, member⟩) after⟩
          · refine .inr ⟨word, behind, rfl, opens, fun front after same => ⟨fun block => ?_, ?_⟩⟩
            · exact closes ⟨front, after, same, block⟩
            · intro guard
              refine none (word :: front) after (by rw [same]; rfl) ?_
              exact cons_mem_one_mul.mpr ⟨opens, guard⟩

theorem elseChain_ending (linked : links ∈ elseIf∗) (ending : Ending rest last after) :
    elseChain (links ++ rest) = .ok (links ++ last, after) := by
  rw [elseChain_links linked]
  cases ending with
  | stops noElse => rw [elseChain_stops noElse]; rfl
  | closes member after => rw [elseChain_elseBlock member]; rfl

theorem elseChain_failing (linked : links ∈ elseIf∗) (opens : isElse word = true)
    (dangling : Dangling behind) :
    ∃ failure, failure.fault.category = .body ∧
      elseChain (links ++ word :: behind) = .error failure := by
  obtain ⟨failure, category, failed⟩ := elseChain_dangling opens dangling
  exact ⟨failure, category, by rw [elseChain_links linked, failed]; rfl⟩

/-- The chain in front of a sequence: links and perhaps the last block.  Where an `else` follows it,
it has ended with that block. -/
theorem elseChain_eq_ok_iff :
    elseChain trees = .ok (chain, after) ↔
      trees = chain ++ after ∧ chain ∈ elseIf∗ * opt elseBlock ∧
        ((∃ next, after.head? = some next ∧ isElse next = true) → chain ∈ elseIf∗ * elseBlock) := by
  constructor
  · intro taken
    obtain ⟨links, rest, rfl, linked,
        ⟨last, after, ending⟩ | ⟨word, behind, rfl, opens, dangling⟩⟩ :=
      elseChain_cases trees
    · cases taken.symm.trans (elseChain_ending linked ending)
      cases ending with
      | stops noElse =>
          rw [List.append_nil]
          refine ⟨rfl, ?_, fun ⟨next, first, opens⟩ => ?_⟩
          · exact ⟨links, linked, [], mem_opt.mpr (.inl rfl), List.append_nil links⟩
          · cases (noElse next first).symm.trans opens
      | closes member after =>
          have whole := Language.append_mem_mul linked member
          have optional := Language.append_mem_mul linked (mem_opt.mpr (.inr member))
          exact ⟨(List.append_assoc ..).symm, optional, fun _ => whole⟩
    · obtain ⟨failure, -, failed⟩ := elseChain_failing linked opens dangling
      cases taken.symm.trans failed
  · rintro ⟨rfl, ⟨links, linked, last, optional, whole⟩, longest⟩
    change links ++ last = chain at whole
    subst whole
    by_cases closed : links ++ last ∈ elseIf∗ * elseBlock
    · obtain ⟨others, linked, block, member, same⟩ := closed
      have taken := elseChain_ending linked (.closes member after)
      change others ++ block = links ++ last at same
      rwa [← List.append_assoc, same] at taken
    · rcases mem_opt.mp optional with rfl | member
      · rw [List.append_nil] at closed longest ⊢
        have noElse : ∀ next, after.head? = some next → isElse next = false := by
          intro next first
          rw [Bool.eq_false_iff]
          exact fun opens => closed (longest ⟨next, first, opens⟩)
        have taken := elseChain_ending linked (.stops noElse)
        rwa [List.append_nil] at taken
      · exact absurd (Language.append_mem_mul linked member) closed

theorem elseChain_eq_error_iff :
    (∃ failure, elseChain trees = .error failure) ↔
      ∃ links word behind, trees = links ++ word :: behind ∧ links ∈ elseIf∗ ∧
        isElse word = true ∧ Dangling behind := by
  constructor
  · rintro ⟨failure, failed⟩
    obtain ⟨links, rest, rfl, linked,
        ⟨last, after, ending⟩ | ⟨word, behind, rfl, opens, dangling⟩⟩ :=
      elseChain_cases trees
    · cases failed.symm.trans (elseChain_ending linked ending)
    · exact ⟨links, word, behind, rfl, linked, opens, dangling⟩
  · rintro ⟨links, word, behind, rfl, linked, opens, dangling⟩
    obtain ⟨failure, -, failed⟩ := elseChain_failing linked opens dangling
    exact ⟨failure, failed⟩

theorem category_elseChain {failure : Failure} (failed : elseChain trees = .error failure) :
    failure.fault.category = .body := by
  obtain ⟨links, word, behind, rfl, linked, opens, dangling⟩ :=
    elseChain_eq_error_iff.mp ⟨failure, failed⟩
  obtain ⟨other, category, same⟩ := elseChain_failing linked opens dangling
  cases failed.symm.trans same
  exact category

end Body

namespace Construct

variable {construct : Construct}

def IsConditional (construct : Construct) : Prop :=
  construct = ifThen ∨ construct = ifLet

/-- A construct takes nothing, or a block, or a block and a chain. -/
theorem body_cases (construct : Construct) :
    (construct.body = 1 ∧ ¬ construct.IsConditional ∧ construct.takesBody = false) ∨
      (construct.body = braces ∧ ¬ construct.IsConditional ∧ construct.takesBody = true ∧
        construct.takesElse = false) ∨
      (construct.body = braces * (elseIf∗ * opt elseBlock) ∧ construct.IsConditional ∧
        construct.takesBody = true ∧ construct.takesElse = true) := by
  cases construct <;> simp [body, IsConditional, takesBody, takesElse, mul_assoc]

theorem nil_notMem_body : [] ∉ construct.body ↔ construct.takesBody = true := by
  rcases construct.body_cases with ⟨same, -, takes⟩ | ⟨same, -, takes, -⟩ | ⟨same, -, takes, -⟩
  · simp [same, takes, Language.mem_one]
  · simp [same, takes, braces]
  · simp [same, takes, braces]

end Construct

namespace Body

variable {head : Head} {group : Tree} {trees body after : List Tree}

/-! The ways in which a body is taken. -/

theorem take_nothing (none : head.construct.takesBody = false) :
    take head group trees = .ok ([], trees) := by
  rw [take.eq_def, none, if_neg Bool.false_ne_true]

/-- Where a block is needed and none follows. -/
theorem take_lacking (takes : head.construct.takesBody = true)
    (missing : ∀ first, trees.head? = some first → isBlock first = false) :
    ∃ failure, failure.fault.category = .body ∧ take head group trees = .error failure := by
  unfold take
  rw [if_pos takes]
  cases trees with
  | nil => exact ⟨_, rfl, rfl⟩
  | cons first rest =>
      simp only [missing first rfl, Bool.false_eq_true, if_false]
      exact ⟨_, rfl, rfl⟩

section

variable {block : Tree} {rest : List Tree} (takes : head.construct.takesBody = true)
  (closes : isBlock block = true)

include takes closes

theorem take_block (noElse : head.construct.takesElse = false) :
    take head group (block :: rest) = .ok ([block], rest) := by
  unfold take
  simp only [takes, closes, noElse, if_true, Bool.false_eq_true, if_false]

theorem take_chain_eq_ok_iff (takesElse : head.construct.takesElse = true) :
    take head group (block :: rest) = .ok (body, after) ↔
      ∃ chain, body = block :: chain ∧ elseChain rest = .ok (chain, after) := by
  unfold take
  simp only [takes, closes, takesElse, if_true]
  cases elseChain rest with
  | error failure => simp
  | ok parts => simp [Prod.ext_iff, eq_comm]

theorem take_chain_eq_error_iff (takesElse : head.construct.takesElse = true)
    {failure : Failure} :
    take head group (block :: rest) = .error failure ↔ elseChain rest = .error failure := by
  unfold take
  simp only [takes, closes, takesElse, if_true]
  cases elseChain rest <;> simp

end

theorem block_or_lacking (trees : List Tree) :
    (∃ block rest, trees = block :: rest ∧ isBlock block = true) ∨
      ∀ first, trees.head? = some first → isBlock first = false := by
  cases trees with
  | nil => exact .inr (by simp)
  | cons first rest =>
      cases block : isBlock first with
      | true => exact .inl ⟨first, rest, rfl, block⟩
      | false => exact .inr (by simpa using block)

theorem mem_braces_mul {language : Language Tree} :
    body ∈ braces * language ↔
      ∃ block rest, body = block :: rest ∧ isBlock block = true ∧ rest ∈ language := by
  cases body with
  | nil => exact iff_of_false nil_mem_one_mul.mp (by simp)
  | cons first rest => simp [braces]

/-- A construct takes the longest body that the trees behind its head begin with. -/
theorem take_eq_ok_iff :
    take head group trees = .ok (body, after) ↔
      trees = body ++ after ∧ body ∈ head.construct.body ∧
        (head.construct.IsConditional → (∃ next, after.head? = some next ∧ isElse next = true) →
          body ∈ braces * (elseIf∗ * elseBlock)) := by
  rcases head.construct.body_cases with
    ⟨same, plain, none⟩ | ⟨same, plain, takes, noElse⟩ | ⟨same, conditional, takes, takesElse⟩
  · rw [take_nothing none, same, Language.mem_one]
    constructor
    · rintro ⟨⟩
      exact ⟨rfl, rfl, fun conditional => absurd conditional plain⟩
    · rintro ⟨rfl, rfl, -⟩
      rfl
  · rw [same]
    constructor
    · intro taken
      rcases block_or_lacking trees with ⟨block, rest, rfl, closes⟩ | missing
      · cases (take_block takes closes noElse).symm.trans taken
        exact ⟨rfl, cons_mem_one.mpr ⟨closes, rfl⟩, fun conditional => absurd conditional plain⟩
      · obtain ⟨failure, -, failed⟩ := @take_lacking head group trees takes missing
        cases taken.symm.trans failed
    · rintro ⟨rfl, ⟨block, rfl, closes⟩, -⟩
      exact take_block takes closes noElse
  · rw [same, mem_braces_mul]
    constructor
    · intro taken
      rcases block_or_lacking trees with ⟨block, rest, rfl, closes⟩ | missing
      · obtain ⟨chain, rfl, linked⟩ := (take_chain_eq_ok_iff takes closes takesElse).mp taken
        obtain ⟨rfl, member, longest⟩ := elseChain_eq_ok_iff.mp linked
        refine ⟨rfl, ⟨block, _, rfl, closes, member⟩, fun _ follows => ?_⟩
        exact cons_mem_one_mul.mpr ⟨closes, longest follows⟩
      · obtain ⟨failure, -, failed⟩ := @take_lacking head group trees takes missing
        cases taken.symm.trans failed
    · rintro ⟨rfl, ⟨block, chain, rfl, closes, member⟩, longest⟩
      refine (take_chain_eq_ok_iff takes closes takesElse).mpr ⟨chain, rfl, ?_⟩
      refine elseChain_eq_ok_iff.mpr ⟨rfl, member, fun follows => ?_⟩
      exact (cons_mem_one_mul.mp (longest conditional follows)).2

/-- What is wrong with a body: the block is missing, or an `else` that a chain has come to begins
neither a link nor the last block. -/
theorem take_eq_error_iff :
    (∃ failure, take head group trees = .error failure) ↔
      ([] ∉ head.construct.body ∧ ∀ first, trees.head? = some first → isBlock first = false) ∨
        (head.construct.IsConditional ∧ ∃ taken word behind, trees = taken ++ word :: behind ∧
          taken ∈ braces * elseIf∗ ∧ isElse word = true ∧ Dangling behind) := by
  rw [Construct.nil_notMem_body]
  constructor
  · rintro ⟨failure, failed⟩
    rcases head.construct.body_cases with
      ⟨-, -, none⟩ | ⟨-, -, takes, noElse⟩ | ⟨-, conditional, takes, takesElse⟩
    · cases failed.symm.trans (take_nothing none)
    · rcases block_or_lacking trees with ⟨block, rest, rfl, closes⟩ | missing
      · cases failed.symm.trans (take_block takes closes noElse)
      · exact .inl ⟨takes, missing⟩
    · rcases block_or_lacking trees with ⟨block, rest, rfl, closes⟩ | missing
      · have stuck := (take_chain_eq_error_iff takes closes takesElse).mp failed
        obtain ⟨links, word, behind, rfl, linked, dangles⟩ :=
          elseChain_eq_error_iff.mp ⟨failure, stuck⟩
        refine .inr ⟨conditional, block :: links, word, behind, rfl, ?_, dangles⟩
        exact cons_mem_one_mul.mpr ⟨closes, linked⟩
      · exact .inl ⟨takes, missing⟩
  · rintro (⟨takes, missing⟩ | ⟨conditional, taken, word, behind, rfl, member, opens, dangling⟩)
    · obtain ⟨failure, -, failed⟩ := @take_lacking head group trees takes missing
      exact ⟨failure, failed⟩
    · rcases head.construct.body_cases with ⟨-, plain, -⟩ | ⟨-, plain, -⟩ | ⟨-, -, takes, takesElse⟩
      · exact absurd conditional plain
      · exact absurd conditional plain
      · obtain ⟨block, links, rfl, closes, linked⟩ := mem_braces_mul.mp member
        obtain ⟨failure, stuck⟩ :=
          elseChain_eq_error_iff.mpr ⟨links, word, behind, rfl, linked, opens, dangling⟩
        exact ⟨failure, (take_chain_eq_error_iff takes closes takesElse).mpr stuck⟩

theorem category_take {failure : Failure} (failed : take head group trees = .error failure) :
    failure.fault.category = .body := by
  cases takes : head.construct.takesBody with
  | false => cases failed.symm.trans (take_nothing takes)
  | true =>
      rcases block_or_lacking trees with ⟨block, rest, rfl, closes⟩ | missing
      · cases takesElse : head.construct.takesElse with
        | false => cases failed.symm.trans (take_block takes closes takesElse)
        | true =>
            exact category_elseChain ((take_chain_eq_error_iff takes closes takesElse).mp failed)
      · obtain ⟨other, category, same⟩ := @take_lacking head group trees takes missing
        cases failed.symm.trans same
        exact category

/-! The same by the places of a sequence. -/

/-- The trees between the head at `place` and `stop` are the body of its construct.  A conditional
goes on in front of an `else` only if it has no last block yet. -/
structure Captures (construct : Construct) (trees : List Tree) (place stop : Nat) : Prop where
  behind : place < stop
  within : stop ≤ trees.length
  belongs : (trees.take stop).drop (place + 1) ∈ construct.body
  longest : construct.IsConditional → (∃ next, trees[stop]? = some next ∧ isElse next = true) →
    (trees.take stop).drop (place + 1) ∈ braces * (elseIf∗ * elseBlock)

/-- What the construct whose head is at `place` lacks: the block behind the head, or what belongs to
an `else` behind the block and some links. -/
inductive Lacks (construct : Construct) (trees : List Tree) (place : Nat) : Prop where
  | block (needed : [] ∉ construct.body)
      (missing : ∀ first, trees[place + 1]? = some first → isBlock first = false)
  | alternative {stop : Nat} (conditional : construct.IsConditional) (behind : place < stop)
      (taken : (trees.take stop).drop (place + 1) ∈ braces * elseIf∗)
      (opens : ∃ word, trees[stop]? = some word ∧ isElse word = true)
      (dangling : Dangling (trees.drop (stop + 1)))

variable {place stop : Nat}

theorem drop_split (behind : place < stop) (trees : List Tree) :
    trees.drop (place + 1) = (trees.take stop).drop (place + 1) ++ trees.drop stop := by
  have rest : trees.drop stop = (trees.drop (place + 1)).drop (stop - (place + 1)) := by
    rw [List.drop_drop]
    congr 1
    omega
  rw [List.drop_take, rest, List.take_append_drop]

/-- A sequence is cut behind its head where what is taken ends. -/
theorem drop_eq_append_iff (within : place < trees.length) :
    trees.drop (place + 1) = body ++ after ↔
      ∃ stop, place < stop ∧ stop ≤ trees.length ∧ body = (trees.take stop).drop (place + 1) ∧
        after = trees.drop stop := by
  constructor
  · intro cut
    have whole := congrArg List.length cut
    rw [List.length_drop, List.length_append] at whole
    refine ⟨place + 1 + body.length, by omega, by omega, ?_, ?_⟩
    · rw [List.drop_take, cut, Nat.add_sub_cancel_left, List.take_left]
    · rw [← List.drop_drop, cut, List.drop_left]
  · rintro ⟨stop, behind, -, rfl, rfl⟩
    exact drop_split behind trees

theorem lacks_iff (within : place < trees.length) {construct : Construct} :
    Lacks construct trees place ↔
      ([] ∉ construct.body ∧
        ∀ first, (trees.drop (place + 1)).head? = some first → isBlock first = false) ∨
      (construct.IsConditional ∧ ∃ taken word behind,
        trees.drop (place + 1) = taken ++ word :: behind ∧ taken ∈ braces * elseIf∗ ∧
          isElse word = true ∧ Dangling behind) := by
  rw [List.head?_drop]
  constructor
  · rintro (⟨needed, missing⟩ | ⟨conditional, behind, taken, ⟨word, here, opens⟩, dangling⟩)
    · exact .inl ⟨needed, missing⟩
    · refine .inr ⟨conditional, _, word, _, ?_, taken, opens, dangling⟩
      obtain ⟨inside, rfl⟩ := List.getElem?_eq_some_iff.mp here
      rw [List.cons_getElem_drop_succ]
      exact drop_split behind trees
  · rintro (⟨needed, missing⟩ | ⟨conditional, taken, word, behind, cut, member, opens, dangling⟩)
    · exact .block needed missing
    · obtain ⟨stop, later, -, rfl, rest⟩ := (drop_eq_append_iff within).mp cut
      refine .alternative conditional later member ⟨word, ?_, opens⟩ ?_
      · rw [← List.head?_drop, ← rest]
        rfl
      · rw [← List.drop_drop, ← rest]
        exact dangling

/-- The body of a construct is the one that lies behind its head, up to where no more of it follows.
Otherwise something of it is missing, and the failure is shown at the head or behind it. -/
theorem take_at {group : Tree} (stands : trees[place]? = some group) (head : Head) :
    (∀ body after, take head group (trees.drop (place + 1)) = .ok (body, after) ↔
      ∃ stop, Captures head.construct trees place stop ∧
        body = (trees.take stop).drop (place + 1) ∧ after = trees.drop stop) ∧
    (∀ failure, take head group (trees.drop (place + 1)) = .error failure →
      failure.fault.category = .body ∧ ∃ culprit ∈ trees.drop place, failure.span = culprit.span) ∧
    ((∃ failure, take head group (trees.drop (place + 1)) = .error failure) ↔
      Lacks head.construct trees place) := by
  obtain ⟨within, rfl⟩ := List.getElem?_eq_some_iff.mp stands
  refine ⟨fun body after => ?_, fun failure failed => ⟨category_take failed, ?_⟩, ?_⟩
  · rw [take_eq_ok_iff, drop_eq_append_iff within]
    constructor
    · rintro ⟨⟨stop, behind, inside, rfl, rfl⟩, belongs, longest⟩
      rw [List.head?_drop] at longest
      exact ⟨stop, ⟨behind, inside, belongs, longest⟩, rfl, rfl⟩
    · rintro ⟨stop, ⟨behind, inside, belongs, longest⟩, rfl, rfl⟩
      rw [← List.head?_drop] at longest
      exact ⟨⟨stop, behind, inside, rfl, rfl⟩, belongs, longest⟩
  · rw [List.drop_eq_getElem_cons within]
    exact (blames_take ..).tree failure failed
  · rw [take_eq_error_iff, lacks_iff within]

/-- A conditional with a link and a last block, in front of the end of a statement. -/
theorem take_at_chain :
    ∃ fragment group head,
      Fragment.read "x::(if) \x7b1\x7d else if y > 0 \x7b2\x7d else \x7b3\x7d;" "main.rs" =
        .ok fragment ∧
      fragment.children[2]? = some group ∧ Head.ofGroup group = .ok head ∧
      Captures head.construct fragment.children 2 12 := by
  have run : (Fragment.read "x::(if) \x7b1\x7d else if y > 0 \x7b2\x7d else \x7b3\x7d;"
      "main.rs").toOption.any fun fragment =>
      fragment.children[2]?.any fun group => (Head.ofGroup group).toOption.any fun head =>
        (take head group (fragment.children.drop 3)).toOption.any (·.1.length == 9) := by
    decide +kernel
  obtain ⟨fragment, lexed, run⟩ := exists_ok_of_any run
  rw [Option.any_eq_true] at run
  obtain ⟨group, stands, run⟩ := run
  obtain ⟨head, parsed, run⟩ := exists_ok_of_any run
  obtain ⟨⟨body, after⟩, taken, count⟩ := exists_ok_of_any run
  obtain ⟨stop, captures, rfl, -⟩ := ((take_at stands head).1 body after).mp taken
  have length : stop - 3 = 9 := by
    have within := captures.within
    rw [beq_iff_eq, List.length_drop, List.length_take, Nat.min_eq_left within] at count
    exact count
  obtain rfl : stop = 12 := by omega
  exact ⟨fragment, group, head, lexed, stands, parsed, captures⟩

end Body

end Headfirst
