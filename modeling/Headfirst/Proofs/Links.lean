import Headfirst.Proofs.Steps

namespace Headfirst

open Headfirst.Tree

/-! Chains of constructs: an operand with one link after another behind it, each a marker,
a head and what belongs to the head. -/

/-- What may follow the block of a condition: `else if <condition> { .. }` any number of
times, and at the end perhaps `else { .. }`. -/
inductive ElseChain : List Tree → Prop where
  | none : ElseChain []
  | last {word block : Tree} (isElse : Body.isElse word = true)
      (isBlock : Body.isBlock block = true) : ElseChain [word, block]
  | condition {word second block : Tree} {condition others : List Tree}
      (isElse : Body.isElse word = true) (isIf : second.isKeyword "if" = true)
      (nonempty : condition ≠ []) (noBlock : ∀ tree ∈ condition, Body.isBlock tree = false)
      (isBlock : Body.isBlock block = true) (rest : ElseChain others) :
      ElseChain (word :: second :: (condition ++ block :: others))

/-- What follows the head of a construct: nothing, a block, or a block with an `else`
chain. -/
inductive Tail (construct : Construct) : List Tree → Prop where
  | prefixed (takes : construct.takesBody = false) : Tail construct []
  | block {block : Tree} (takes : construct.takesBody = true) (isBlock : Body.isBlock block = true) :
      Tail construct [block]
  | chain {block : Tree} {others : List Tree} (takes : construct.takesElse = true)
      (isBlock : Body.isBlock block = true) (chain : ElseChain others) :
      Tail construct (block :: others)

namespace Body

variable {trees after : List Tree}

theorem guardedBlock_condition {condition : List Tree} {block : Tree} (nonempty : condition ≠ [])
    (noBlock : ∀ tree ∈ condition, isBlock tree = false) (found : isBlock block = true)
    (after : List Tree) :
    guardedBlock (condition ++ block :: after) = some (condition ++ [block], after) := by
  have inFront : ∀ tree ∈ condition, (!isBlock tree) = true := by
    intro tree member
    rw [noBlock tree member]
    rfl
  have taken : (condition ++ block :: after).takeWhile (!isBlock ·) = condition := by
    rw [List.takeWhile_append_of_pos inFront]
    simp [List.takeWhile, found]
  have dropped : (condition ++ block :: after).dropWhile (!isBlock ·) = block :: after := by
    rw [List.dropWhile_append_of_pos inFront]
    simp [List.dropWhile, found]
  unfold guardedBlock
  rw [taken, dropped]
  cases condition with
  | nil => contradiction
  | cons first others => rfl

theorem elseChain_of_elseChain (chain : ElseChain trees) (stops : after.head?.any isElse = false) :
    elseChain (trees ++ after) = .ok (trees, after) := by
  induction chain with
  | none =>
      cases after with
      | nil => rw [List.append_nil, elseChain]
      | cons next after =>
          have other : ¬ isElse next = true := by simpa using stops
          rw [List.nil_append, elseChain.eq_def]
          simp only [if_neg other]
  | last opens block =>
      rw [elseChain.eq_def]
      simp only [List.cons_append, List.nil_append, if_pos opens, if_pos block]
  | @condition word second block condition others opens isIf nonempty noBlock found rest ih =>
      have notBlock : isBlock second = false := by
        cases second with
        | leaf token => rfl
        | group bracket children => contradiction
      have taken := guardedBlock_condition nonempty noBlock found (others ++ after)
      rw [elseChain.eq_def]
      simp only [List.cons_append, List.append_assoc, if_pos opens, notBlock, Bool.false_eq_true,
        if_false, if_pos isIf]
      split
      · rename_i unguarded
        rw [taken] at unguarded
        contradiction
      · rename_i link following guarded
        rw [taken] at guarded
        cases guarded
        simp [ih]

/-- A well-formed tail that `else` does not follow is taken as a whole. -/
theorem take_of_tail {head : Head} {group : Tree} (tail : Tail head.construct trees)
    (stops : after.head?.any isElse = false) :
    take head group (trees ++ after) = .ok (trees, after) := by
  unfold take
  cases tail with
  | prefixed takes => rw [if_neg (by simp [takes]), List.nil_append]
  | block takes found =>
      simp only [if_pos takes, List.cons_append, List.nil_append, if_pos found]
      split
      · have nothing := elseChain_of_elseChain .none stops
        rw [List.nil_append] at nothing
        rw [nothing]
      · rfl
  | chain takes found chain =>
      have body : head.construct.takesBody = true := by
        cases construct : head.construct <;> simp_all [Construct.takesElse, Construct.takesBody]
      simp only [if_pos body, List.cons_append, if_pos found, if_pos takes,
        elseChain_of_elseChain chain stops]

end Body

/-- One construct of a chain, and what the rewriting takes it apart into. -/
structure Link where
  marker : Tree
  group : Tree
  head : Head
  tail : List Tree
  separator : marker.isPunct "::" = true
  parsed : Head.ofGroup group = .ok head
  fits : Tail head.construct tail
  plainHead : markersAll head.trees = 0
  plainTail : markersAll tail = 0

namespace Link

def trees (link : Link) : List Tree :=
  link.marker :: link.group :: link.tail

def treesAll (links : List Link) : List Tree :=
  links.flatMap trees

/-- A link in front of its operand. -/
def around (link : Link) (operand : Tree) : List Tree :=
  link.head.trees ++ operand :: link.tail

/-- What has been written with the first links goes in parentheses into the next one. -/
def nested (inner : List Tree) : List Link → List Tree
  | [] => inner
  | link :: links => nested (link.around (.group { delimiter := .paren } inner)) links

def replace (link : Link) (operand : Tree) : Tree :=
  Replacement.make true [operand] link.head link.tail

/-- The replacement for all links, given that for the first ones. -/
def replaced (inner : Tree) : List Link → Tree
  | [] => inner
  | link :: links => replaced (link.replace inner) links

theorem isGroup (link : Link) : link.group.isGroup .paren = true :=
  Head.ofGroup_isGroup link.parsed

theorem isMarker (link : Link) (after : List Tree) :
    Marker.test link.marker (link.group :: after).head? = true := by
  have ends := Tree.continuesPath_of_isGroup link.isGroup
  simp [Marker.test, link.separator, ends]

theorem not_isElse (link : Link) : Body.isElse link.marker = false := by
  cases marker : link.marker with
  | leaf token =>
      refine Bool.eq_false_iff.mpr fun isElse => ?_
      have noPunct : token.isPunct "::" = false := Token.isPunct_of_isKeyword isElse
      have separator := link.separator
      rw [marker] at separator
      exact Bool.noConfusion (noPunct.symm.trans separator)
  | group bracket children => rfl

theorem treesAll_stops (links : List Link) {after : List Tree}
    (stops : after.head?.any Body.isElse = false) :
    (treesAll links ++ after).head?.any Body.isElse = false := by
  cases links with
  | nil => exact stops
  | cons link links => exact link.not_isElse

end Link

/-! The operand. -/

namespace Operand

/-- A tree that is an operand on its own: a name, a literal or a group. -/
def IsPlain : Tree → Prop
  | .leaf token => token.kind = .literal ∨ token.kind = .ident ∧ token.isReserved = false
  | .group bracket _ => bracket.delimiter ≠ .invisible

/-- What an operand may start behind, nearest tree first. -/
def Opens (before : List Tree) : Prop :=
  ∀ tree, before.head? = some tree → isBoundary tree = true

variable {reach : Nat} {before : List Tree} {tree marker : Tree}

theorem extent_of_opens (opens : Opens before) : extent reach before tree = 0 := by
  cases before with
  | nil => cases reach <;> rfl
  | cons nearest before =>
      cases reach with
      | zero => rfl
      | succ reach => simp [extent, opens nearest rfl]

theorem isBoundary_of_isPlain (plain : IsPlain tree) : isBoundary tree = false := by
  cases tree with
  | leaf token =>
      rcases plain with literal | ⟨ident, notReserved⟩
      · simp [isBoundary, Tree.isPunctIn, Tree.isKeywordIn, Tree.anyToken, Token.isReserved,
          literal]
      · simp [isBoundary, Tree.isPunctIn, Tree.isKeywordIn, Tree.anyToken, ident, notReserved]
  | group bracket children => rfl

theorem isPunct_of_isPlain (plain : IsPlain tree) (text : String) : tree.isPunct text = false := by
  cases tree with
  | leaf token =>
      rcases plain with literal | ⟨ident, -⟩
      · simp [Tree.isPunct, Tree.anyToken, Token.isPunct, literal]
      · simp [Tree.isPunct, Tree.anyToken, Token.isPunct, ident]
  | group bracket children => rfl

theorem isPunctIn_of_isPlain (plain : IsPlain tree) (texts : List String) :
    tree.isPunctIn texts = false := by
  cases tree with
  | leaf token =>
      rcases plain with literal | ⟨ident, -⟩
      · simp [Tree.isPunctIn, Tree.anyToken, literal]
      · simp [Tree.isPunctIn, Tree.anyToken, ident]
  | group bracket children => rfl

theorem isInvisible_of_isPlain (plain : IsPlain tree) : tree.isInvisible = false := by
  cases tree with
  | leaf token => rfl
  | group bracket children => simpa [Tree.isInvisible, Tree.isGroup, IsPlain] using plain

theorem take_plain (plain : IsPlain tree) (opens : Opens before) :
    take (reach + 1) (tree :: before) marker = .ok [tree] := by
  have one : length (reach + 1) (tree :: before) = 1 := by
    simp [length, isBoundary_of_isPlain plain, isInvisible_of_isPlain plain,
      extent_of_opens opens]
  unfold take
  rw [one, List.take_succ_cons, List.take_zero]
  cases tree with
  | leaf token => simp [isPunctIn_of_isPlain plain]
  | group bracket children => rfl

theorem take_invisible (invisible : tree.isInvisible = true) :
    take (reach + 1) (tree :: before) marker = .ok [tree] := by
  cases tree with
  | leaf token => contradiction
  | group bracket children =>
      have boundary : isBoundary (.group bracket children) = false := rfl
      have one : length (reach + 1) (.group bracket children :: before) = 1 := by
        simp [length, boundary, invisible]
      unfold take
      rw [one]
      rfl

end Operand

namespace Fronting

variable {settings : Settings} {floor : Nat} {before after : List Tree} {operand : Tree}

theorem siblings_link {link : Link} (progress : Progress)
    (parenthesize : settings.parenthesize = true)
    (taken : Operand.take (before.length + 1 - floor) (operand :: before) link.marker =
      .ok [operand])
    (stops : after.head?.any Body.isElse = false)
    (room : progress.splices + 1 ≤ settings.maxSplices) :
    ∃ next : Progress, next.splices = progress.splices + 1 ∧
      next.tolerated = progress.tolerated ∧
      siblings settings floor (operand :: before) (link.trees ++ after) progress =
        siblings settings floor (link.replace operand :: before) after next := by
  let site : Site := ⟨operand :: before, link.marker, link.group :: (link.tail ++ after)⟩
  let occurrence : Occurrence := ⟨before, [operand], link.head, link.tail, after⟩
  have resolved : site.resolve (before.length + 1 - floor) = .ok occurrence := by
    rw [Site.resolve_eq_ok]
    simp only [Site.divide, site, taken, link.parsed, Body.take_of_tail link.fits stops,
      List.length_singleton, List.drop_one, List.tail_cons, List.reverse_singleton, occurrence]
  have replacement : occurrence.replacement settings.parenthesize = link.replace operand := by
    rw [parenthesize]
    rfl
  refine ⟨spliced settings site (before.length + 1 - floor) occurrence progress, rfl, rfl, ?_⟩
  rw [← replacement]
  exact siblings_splice (link.isMarker _) resolved room

theorem siblings_links (progress : Progress) (parenthesize : settings.parenthesize = true)
    (links : List Link) (inside : floor ≤ before.length) (invisible : operand.isInvisible = true)
    (stops : after.head?.any Body.isElse = false)
    (room : progress.splices + links.length ≤ settings.maxSplices) :
    ∃ next : Progress, next.splices = progress.splices + links.length ∧
      next.tolerated = progress.tolerated ∧
      siblings settings floor (operand :: before) (Link.treesAll links ++ after) progress =
        siblings settings floor (Link.replaced operand links :: before) after next := by
  induction links generalizing operand progress with
  | nil => exact ⟨progress, rfl, rfl, rfl⟩
  | cons link links ih =>
      have taken : Operand.take (before.length + 1 - floor) (operand :: before) link.marker =
          .ok [operand] := by
        rw [Nat.sub_add_comm inside]
        exact Operand.take_invisible invisible
      rw [List.length_cons] at room
      obtain ⟨between, counted, tolerated, first⟩ := siblings_link progress parenthesize taken
        (Link.treesAll_stops links stops) (by omega)
      obtain ⟨next, countedLater, toleratedLater, later⟩ := @ih (link.replace operand) between rfl
        (by rw [counted]; omega)
      refine ⟨next, ?_, ?_, ?_⟩
      · rw [countedLater, counted, List.length_cons]
        omega
      · rw [toleratedLater, tolerated]
      · rw [Link.treesAll, List.flatMap_cons, List.append_assoc]
        exact first.trans later

end Fronting

end Headfirst
