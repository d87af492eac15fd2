import Headfirst.Fragment.Source
import Headfirst.Proofs.Chaining

namespace Headfirst

open Headfirst.Tree

/-! An expression right behind a construct, with a marker of its own.

A construct that stands in front of its operand and ends in a block is a statement of its
own.  One that was moved there is a single invisible tree, in which the scan for an operand
sees no block, so that it becomes part of the next operand. -/

namespace Operand

/-- An expression: a sequence within which the scan for an operand does not stop, whatever
stands in front of it. -/
structure IsExpression (trees : List Tree) : Prop where
  nonempty : trees ≠ []
  goesOn : ∀ tree ∈ trees, isBoundary tree = false ∧ tree.isInvisible = false
  whole : ∀ front tree next behind, trees = front ++ tree :: next :: behind →
    ∀ before, closesBlockStatement (front.reverse ++ before) tree (some next) = false
  ends : ∀ last ∈ trees.getLast?, last.isPunctIn danglingOperators = false

/-- A block statement behind the siblings `before`: what stands in front of its keyword, such
as a label, the keyword, and what follows it up to the block at the end. -/
structure BlockStatement (before : List Tree) where
  front : List Tree
  keyword : Tree
  inner : List Tree
  block : Tree
  starts : startsStatement (front.reverse ++ before) = true
  opens : keyword.isKeywordIn blockKeywords = true
  quiet : ∀ tree ∈ inner, isTerminator tree = false ∧ tree.isKeywordIn blockKeywords = false
  isBlock : block.isGroup .brace = true

namespace BlockStatement

variable {before : List Tree} (statement : BlockStatement before)

/-- What stands in front of the block, nearest first. -/
def passed : List Tree :=
  statement.inner.reverse ++ statement.keyword :: (statement.front.reverse ++ before)

def trees : List Tree :=
  statement.front ++ statement.keyword :: (statement.inner ++ [statement.block])

theorem reverse_trees :
    statement.trees.reverse ++ before = statement.block :: statement.passed := by
  simp [trees, passed]

end BlockStatement

variable {before passed expression : List Tree} {tree next first marker : Tree} {reach : Nat}

theorem not_isTerminator_of_isKeywordIn {words : List String}
    (keyword : tree.isKeywordIn words = true) : isTerminator tree = false := by
  cases tree with
  | leaf token =>
      have reserved : token.isReserved = true := (Bool.and_eq_true_iff.mp keyword).1
      have ident : token.kind = .ident := by
        simpa using (Bool.and_eq_true_iff.mp reserved).1
      simp [isTerminator, isPunctIn, anyToken, ident]
  | group bracket children => rfl

theorem inBlockStatement_of_quiet (opens : tree.isKeywordIn blockKeywords = true)
    (quiet : ∀ tree ∈ passed, isTerminator tree = false ∧ tree.isKeywordIn blockKeywords = false) :
    inBlockStatement (passed ++ tree :: before) = startsStatement before := by
  induction passed with
  | nil => simp [inBlockStatement, not_isTerminator_of_isKeywordIn opens, opens]
  | cons nearest passed ih =>
      obtain ⟨goesOn, other⟩ := quiet nearest (List.mem_cons_self ..)
      rw [List.cons_append, inBlockStatement, goesOn, other]
      exact ih fun tree member => quiet tree (List.mem_cons_of_mem _ member)

/-- Only punctuation keeps the block at the end of a block statement from ending it. -/
theorem BlockStatement.closes (statement : BlockStatement before)
    (noPunct : next.isAnyPunct = false) :
    closesBlockStatement statement.passed statement.block (some next) = true := by
  have inside : inBlockStatement statement.passed = true := by
    rw [passed, inBlockStatement_of_quiet statement.opens fun tree member =>
      statement.quiet tree (List.mem_reverse.mp member)]
    exact statement.starts
  simp [closesBlockStatement, statement.isBlock, noPunct, inside]

theorem isExpression_plain (plain : IsPlain tree) : IsExpression [tree] where
  nonempty := by simp
  goesOn other member := by
    cases List.mem_singleton.mp member
    exact ⟨isBoundary_of_isPlain plain, isInvisible_of_isPlain plain⟩
  whole front tree next behind cut := by
    have lengths := congrArg List.length cut
    simp only [List.length_append, List.length_cons, List.length_nil] at lengths
    omega
  ends last found := by
    cases Option.mem_some.mp found
    exact isPunctIn_of_isPlain plain _

/-! What the scan for an operand finds at the front of an expression. -/

theorem extent_expression (isExpression : IsExpression expression)
    (starts : expression.head? = some first) (behind : List Tree)
    (cut : expression = passed.reverse ++ next :: behind) :
    extent (passed.length + reach) (passed ++ before) next =
      passed.length + extent reach before first := by
  induction passed generalizing next behind with
  | nil =>
      rw [cut] at starts
      cases starts
      simp
  | cons tree passed ih =>
      rw [List.reverse_cons, List.append_assoc, List.singleton_append] at cut
      have member : tree ∈ expression := by
        rw [cut]
        simp
      obtain ⟨goesOn, visible⟩ := isExpression.goesOn tree member
      have open' := isExpression.whole _ _ _ _ cut before
      rw [List.reverse_reverse] at open'
      rw [List.length_cons, Nat.add_right_comm, List.cons_append, extent, goesOn, open', visible,
        ih _ cut]
      simp only [Bool.or_self, Bool.false_eq_true, if_false]
      omega

theorem take_expression (isExpression : IsExpression expression)
    (starts : expression.head? = some first) :
    take (expression.length + reach) (expression.reverse ++ before) marker =
      .ok (expression.reverse ++ before.take (extent reach before first)) := by
  obtain ⟨front, last, same⟩ :=
    (List.eq_nil_or_concat expression).resolve_left isExpression.nonempty
  obtain ⟨goesOn, visible⟩ := isExpression.goesOn last (by simp [same])
  have noDangling := isExpression.ends last (by simp [same])
  have scan := @extent_expression before front.reverse expression last first reach isExpression
    starts [] (by simp [same])
  have extended : length (expression.length + reach) (expression.reverse ++ before) =
      expression.length + extent reach before first := by
    simp only [same, List.concat_eq_append, List.reverse_append, List.reverse_singleton,
      List.cons_append, List.nil_append, List.length_append, List.length_singleton,
      List.length_reverse] at scan ⊢
    rw [Nat.add_right_comm, length, goesOn, visible, scan]
    simp only [Bool.false_eq_true, if_false]
    omega
  have whole : (expression.reverse ++ before).take (expression.length + extent reach before first) =
      expression.reverse ++ before.take (extent reach before first) := by
    rw [← List.length_reverse, List.take_length_add_append]
  unfold take
  rw [extended, whole, same, List.concat_eq_append, List.reverse_append]
  cases last with
  | leaf token => simp [noDangling]
  | group bracket children => rfl

/-- Behind a replacement, an expression and the replacement are the operand. -/
theorem take_behind_replacement (isExpression : IsExpression expression)
    (starts : expression.head? = some first) (invisible : tree.isInvisible = true) :
    take (expression.length + (reach + 1)) (expression.reverse ++ tree :: before) marker =
      .ok (tree :: expression).reverse := by
  have included : extent (reach + 1) (tree :: before) first = 1 := by
    cases tree with
    | leaf token => contradiction
    | group bracket children =>
        have delimiter : bracket.delimiter = .invisible := by
          simpa [isInvisible, isGroup] using invisible
        have noBlock : (Tree.group bracket children).isGroup .brace = false := by
          simp [isGroup, delimiter]
        have goesOn : isBoundary (.group bracket children) = false := rfl
        simp [extent, goesOn, closesBlockStatement, noBlock, invisible]
  rw [take_expression isExpression starts, included]
  simp

/-- Behind a block statement, an expression alone is the operand. -/
theorem take_behind_statement (isExpression : IsExpression expression)
    (starts : expression.head? = some first) (noPunct : first.isAnyPunct = false)
    (statement : BlockStatement before) :
    take (expression.length + reach) (expression.reverse ++ (statement.trees.reverse ++ before))
        marker =
      .ok expression.reverse := by
  have bounded : extent reach (statement.trees.reverse ++ before) first = 0 := by
    cases reach with
    | zero => simp [extent]
    | succ reach => simp [statement.reverse_trees, extent, statement.closes noPunct]
  rw [take_expression isExpression starts, bounded]
  simp

end Operand

/-- An expression with a well-formed marker of its own, and what follows. -/
structure Sequel where
  expression : List Tree
  first : Tree
  marker : Tree
  group : Tree
  head : Head
  body : List Tree
  after : List Tree
  isExpression : Operand.IsExpression expression
  starts : expression.head? = some first
  passable : Passable (some marker) expression
  separator : marker.isPunct "::" = true
  parsed : Head.ofGroup group = .ok head
  taken : Body.take head group (body ++ after) = .ok (body, after)

namespace Sequel

variable (sequel : Sequel) {settings : Settings} {floor reach : Nat} {before operand : List Tree}
  {progress : Progress}

def trees : List Tree :=
  sequel.expression ++ sequel.marker :: sequel.group :: (sequel.body ++ sequel.after)

/-- The place of the marker behind the siblings `before`. -/
def site (before : List Tree) : Site :=
  ⟨sequel.expression.reverse ++ before, sequel.marker,
    sequel.group :: (sequel.body ++ sequel.after)⟩

def occurrence (before operand : List Tree) : Occurrence :=
  ⟨before, operand, sequel.head, sequel.body, sequel.after⟩

theorem resolve_site
    (taken : Operand.take reach (sequel.site before).before sequel.marker = .ok operand.reverse) :
    (sequel.site before).resolve reach =
      .ok (sequel.occurrence ((sequel.site before).before.drop operand.length) operand) := by
  rw [Site.resolve_eq_ok]
  simp only [site] at taken
  simp [Site.divide, site, occurrence, taken, sequel.parsed, sequel.taken]

theorem siblings_trees {occurrence : Occurrence}
    (resolved : (sequel.site before).resolve ((sequel.site before).before.length - floor) =
      .ok occurrence)
    (room : progress.splices + 1 ≤ settings.maxSplices) :
    ∃ next : Progress, next.splices = progress.splices + 1 ∧
      Fronting.siblings settings floor before sequel.trees progress =
        Fronting.siblings settings floor
          (occurrence.replacement settings.parenthesize :: occurrence.before) occurrence.after
          next := by
  have isMarker : Marker.test sequel.marker (some sequel.group) = true := by
    have ends := continuesPath_of_isGroup (Head.ofGroup_isGroup sequel.parsed)
    simp [Marker.test, sequel.separator, ends]
  let site := sequel.site before
  have passable : Passable (site.marker :: site.after).head? sequel.expression := sequel.passable
  refine ⟨Fronting.spliced settings site (site.before.length - floor) occurrence progress, rfl, ?_⟩
  rw [trees]
  refine (Fronting.siblings_skipAll passable).trans ?_
  exact Fronting.siblings_splice isMarker resolved room

/-- Behind a construct that was moved, the next operand takes that construct along. -/
theorem resolve_behind_replacement {replacement : Tree} (invisible : replacement.isInvisible = true)
    (inside : floor ≤ before.length) :
    (sequel.site (replacement :: before)).resolve
        ((sequel.site (replacement :: before)).before.length - floor) =
      .ok (sequel.occurrence before (replacement :: sequel.expression)) := by
  have reach : (sequel.site (replacement :: before)).before.length - floor =
      sequel.expression.length + (before.length - floor + 1) := by
    simp only [site, List.length_append, List.length_reverse, List.length_cons]
    omega
  have taken := @Operand.take_behind_replacement before sequel.expression replacement sequel.first
    sequel.marker (before.length - floor) sequel.isExpression sequel.starts invisible
  have rest : (sequel.site (replacement :: before)).before.drop
      (replacement :: sequel.expression).length = before := by
    have cut : sequel.expression.reverse ++ replacement :: before =
        (replacement :: sequel.expression).reverse ++ before := by
      simp
    rw [site, cut, ← List.length_reverse, List.drop_left]
  rw [reach, sequel.resolve_site taken, rest]

/-- Behind a construct that stands in front of its operand, the next operand begins afresh. -/
theorem resolve_behind_statement (statement : Operand.BlockStatement before)
    (noPunct : sequel.first.isAnyPunct = false)
    (inside : floor ≤ (statement.trees.reverse ++ before).length) :
    (sequel.site (statement.trees.reverse ++ before)).resolve
        ((sequel.site (statement.trees.reverse ++ before)).before.length - floor) =
      .ok (sequel.occurrence (statement.trees.reverse ++ before) sequel.expression) := by
  have reach : (sequel.site (statement.trees.reverse ++ before)).before.length - floor =
      sequel.expression.length + ((statement.trees.reverse ++ before).length - floor) := by
    rw [site, List.length_append, List.length_reverse]
    omega
  have taken := @Operand.take_behind_statement before sequel.expression sequel.first sequel.marker
    ((statement.trees.reverse ++ before).length - floor) sequel.isExpression sequel.starts noPunct
    statement
  have rest : (sequel.site (statement.trees.reverse ++ before)).before.drop
      sequel.expression.length = statement.trees.reverse ++ before := by
    simp [site]
  rw [reach, sequel.resolve_site taken, rest]

end Sequel

namespace Fronting

/-- An expression with a marker of its own stands right behind an occurrence.  Once the
occurrence is replaced, the operand of that marker is the replacement and the expression;
behind the same construct in front of its operand, it is the expression alone. -/
theorem siblings_sequel {settings : Settings} {floor : Nat} {before after : List Tree}
    {marker : Tree} {progress : Progress} {former : Occurrence} (sequel : Sequel)
    (isMarker : Marker.test marker after.head? = true)
    (resolved : Site.resolve ⟨before, marker, after⟩ (before.length - floor) = .ok former)
    (follows : former.after = sequel.trees)
    (room : progress.splices + 2 ≤ settings.maxSplices) :
    (let replacement := former.replacement settings.parenthesize
      let site := sequel.site (replacement :: former.before)
      let latter := sequel.occurrence former.before (replacement :: sequel.expression)
      site.resolve (site.before.length - floor) = .ok latter ∧
        ∃ next : Progress, next.splices = progress.splices + 2 ∧
          siblings settings floor before (marker :: after) progress =
            siblings settings floor (latter.replacement settings.parenthesize :: former.before)
              sequel.after next) ∧
      ∀ statement : Operand.BlockStatement former.before,
        statement.trees = former.head.trees ++ former.operand ++ former.body →
        sequel.first.isAnyPunct = false →
        let passed := statement.trees.reverse ++ former.before
        let site := sequel.site passed
        let latter := sequel.occurrence passed sequel.expression
        site.resolve (site.before.length - floor) = .ok latter ∧
          ∃ next : Progress, next.splices = progress.splices + 1 ∧
            siblings settings floor passed sequel.trees progress =
              siblings settings floor (latter.replacement settings.parenthesize :: passed)
                sequel.after next := by
  have inside : floor ≤ former.before.length := by
    obtain ⟨operand, taken, -, rest, -⟩ := Site.resolve_taken resolved
    have short := Operand.length_le_reach (before.length - floor) before
    have some : operand.length ≠ 0 := mt List.length_eq_zero_iff.mp (Operand.take_eq_ok taken).2
    have length := Operand.length_of_take taken
    simp only [rest, List.length_drop] at length ⊢
    omega
  refine ⟨?_, ?_⟩
  · intro replacement site latter
    have pulled : site.resolve (site.before.length - floor) = .ok latter :=
      sequel.resolve_behind_replacement (Replacement.isInvisible_make ..) inside
    obtain ⟨next, counted, goesOn⟩ := @Sequel.siblings_trees sequel settings floor _
      (spliced settings ⟨before, marker, after⟩ (before.length - floor) former progress) _ pulled
      (by change (progress.splices + 1 : Nat) + 1 ≤ settings.maxSplices; omega)
    refine ⟨pulled, next, counted, ?_⟩
    rw [siblings_splice isMarker resolved (by omega), follows]
    exact goesOn
  · intro statement same noPunct passed site latter
    have alone : site.resolve (site.before.length - floor) = .ok latter :=
      sequel.resolve_behind_statement statement noPunct (by rw [List.length_append]; omega)
    exact ⟨alone, sequel.siblings_trees alone (by omega)⟩

end Fronting

namespace Sequel

/-- `x::(match) \x7b\x7d`. -/
def arms : Sequel where
  expression := [Chain.name]
  first := Chain.name
  marker := Link.arms.marker
  group := Link.arms.group
  head := Link.arms.head
  body := Link.arms.tail
  after := []
  isExpression := Operand.isExpression_plain Chain.isPlain_name
  starts := rfl
  passable := ⟨by decide, trivial⟩
  separator := Link.arms.separator
  parsed := Link.arms.parsed
  taken := by rfl

def loopHead : Head where
  construct := .forIn
  keywords := [⟨.ident, "for", .unknown, ""⟩]
  pattern := [Chain.name]
  link := some ⟨.ident, "in", .unknown, ""⟩

/-- The trees of `::(for x in) \x7b\x7d` behind its marker, and `x::(match) \x7b\x7d`. -/
def behindLoop : List Tree :=
  .group { delimiter := .paren } loopHead.trees :: .group { delimiter := .brace } [] :: arms.trees

def loop : Occurrence :=
  ⟨[], [Chain.name], loopHead, [.group { delimiter := .brace } []], arms.trees⟩

/-- `for x in x \x7b\x7d`. -/
def loopStatement : Operand.BlockStatement [] where
  front := []
  keyword := .leaf ⟨.ident, "for", .unknown, ""⟩
  inner := [Chain.name, .leaf ⟨.ident, "in", .unknown, ""⟩, Chain.name]
  block := .group { delimiter := .brace } []
  starts := rfl
  opens := by decide
  quiet := by decide
  isBlock := rfl

end Sequel

namespace Fronting

theorem siblings_sequel_loop :
    let replacement := Sequel.loop.replacement true
    (∃ next, siblings {} 0 [Chain.name] (Sequel.arms.marker :: Sequel.behindLoop) {} =
        siblings {} 0 [(Sequel.arms.occurrence [] [replacement, Chain.name]).replacement true] []
          next) ∧
      ∃ next, siblings {} 0 Sequel.loopStatement.trees.reverse Sequel.arms.trees {} =
        siblings {} 0 ((Sequel.arms.occurrence [] [Chain.name]).replacement true ::
          Sequel.loopStatement.trees.reverse) [] next := by
  intro replacement
  obtain ⟨⟨-, next, -, pulled⟩, alone⟩ := @siblings_sequel {} 0 [Chain.name] Sequel.behindLoop
    Sequel.arms.marker {} Sequel.loop Sequel.arms (by decide) (by rfl) rfl (by decide)
  obtain ⟨-, next', -, kept⟩ := alone Sequel.loopStatement rfl (by decide)
  exact ⟨⟨next, pulled⟩, next', kept⟩

/-- The loop that was moved ends up in the operand of `match`; one that was written in front
of its operand does not. -/
theorem siblings_sequel_pulled_in :
    (Fragment.frontSource {} "v::(for x in) \x7b f(x) \x7d\ny::(match) \x7b _ => 1 \x7d"
        "main.rs").toOption = some "match (for x in v \x7b f(x) \x7d\ny) \x7b _ => 1 \x7d" ∧
      (Fragment.frontSource {} "for x in v \x7b f(x) \x7d\ny::(match) \x7b _ => 1 \x7d"
        "main.rs").toOption = some "for x in v \x7b f(x) \x7d\nmatch y \x7b _ => 1 \x7d" := by
  decide +kernel

end Fronting

end Headfirst
