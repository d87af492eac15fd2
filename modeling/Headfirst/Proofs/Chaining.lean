import Headfirst.Proofs.Links
import Headfirst.Tree.Edit

namespace Headfirst

open Headfirst.Tree

/-! The chaining law: constructs chained behind an operand nest in front of it, the last
one outermost. -/

namespace Tree

theorem words_group {left right : List Tree} (bracket : Bracket)
    (same : wordsAll left = wordsAll right) :
    (group bracket left).words = (group bracket right).words := by
  rw [words, words, same]

theorem depth_wrap (delimiter : Delimiter) (times : Nat) (tree : Tree) :
    (wrap delimiter times tree).depth = times + tree.depth := by
  induction times with
  | zero => simp [wrap]
  | succ times ih =>
      simp only [wrap, depth, depthAll, ih]
      omega

theorem markers_wrap {tree : Tree} (delimiter : Delimiter) (harmless : tree.isPunct "::" = false)
    (unmarked : tree.markers = 0) (times : Nat) :
    (wrap delimiter times tree).markers = 0 ∧
      (wrap delimiter times tree).isPunct "::" = false := by
  induction times with
  | zero => exact ⟨unmarked, harmless⟩
  | succ times ih =>
      refine ⟨?_, rfl⟩
      rw [wrap, markers, markersAll_cons, Marker.test_eq_false ih.2, ih.1]
      rfl

end Tree

namespace Replacement

theorem words_make (parenthesize : Bool) (operand : List Tree) (head : Head) (body : List Tree) :
    (make parenthesize operand head body).words =
      wordsAll (head.trees ++ wrapped parenthesize operand :: body) := by
  change wordsAll (spaced _) = _
  exact wordsAll_eq_of_bare (bare_spaced _)

theorem words_wrapped_plain {tree : Tree} (plain : Operand.IsPlain tree) :
    (wrapped true [tree]).words = tree.words := by
  have visible : (tree.withLeading "").isInvisible = false := by
    have same := Operand.isInvisible_of_isPlain plain
    cases tree with
    | leaf token => rfl
    | group bracket children => exact same
  have one : wrapped true [tree] = tree.bare := by
    simp [wrapped, bareOperand, needsParens, visible, Tree.bare]
  rw [one, words_bare]

theorem wrapped_invisible {tree : Tree} (invisible : tree.isInvisible = true) :
    ∃ loc endLoc,
      wrapped true [tree] = .group { delimiter := .paren, loc, endLoc } [tree.bare] := by
  have same : (tree.withLeading "").isInvisible = true := by
    cases tree with
    | leaf token => contradiction
    | group bracket children => exact invisible
  refine ⟨firstLoc [tree.bare], tree.bare.loc, ?_⟩
  simp only [wrapped, bareOperand, needsParens, same, Bool.and_self, if_true]
  rfl

theorem words_wrapped_invisible {tree : Tree} (invisible : tree.isInvisible = true) :
    (wrapped true [tree]).words = "(" :: tree.words ++ [")"] := by
  obtain ⟨loc, endLoc, equal⟩ := wrapped_invisible invisible
  simp [equal, words, wordsAll, Delimiter.opening, Delimiter.closing]

end Replacement

namespace Link

variable {link : Link} {links : List Link} {operand : Tree}

theorem words_replace_plain (plain : Operand.IsPlain operand) :
    (link.replace operand).words = wordsAll (link.around operand) := by
  rw [replace, Replacement.words_make, around, wordsAll_append, wordsAll_append, wordsAll,
    wordsAll, Replacement.words_wrapped_plain plain]

theorem words_replace_invisible (invisible : operand.isInvisible = true) {inner : List Tree}
    (same : operand.words = wordsAll inner) :
    (link.replace operand).words =
      wordsAll (link.around (.group { delimiter := .paren } inner)) := by
  have parens : (Tree.group { delimiter := .paren } inner).words =
      "(" :: wordsAll inner ++ [")"] := by
    simp [words, Delimiter.opening, Delimiter.closing]
  rw [replace, Replacement.words_make, around, wordsAll_append, wordsAll_append, wordsAll,
    wordsAll, Replacement.words_wrapped_invisible invisible, parens, same]

theorem words_replaced (invisible : operand.isInvisible = true) {inner : List Tree}
    (same : operand.words = wordsAll inner) :
    (replaced operand links).words = wordsAll (nested inner links) := by
  induction links generalizing operand inner with
  | nil => exact same
  | cons link links ih => exact ih rfl (words_replace_invisible invisible same)

theorem markers_replace (harmless : operand.isPunct "::" = false) (inside : operand.markers = 0) :
    (link.replace operand).markers = 0 := by
  have ends : EndsHarmlessly [operand] := endsHarmlessly_concat [] harmless
  rw [replace, Replacement.markers_make true (Head.ends_ofGroup link.parsed) ends,
    link.plainHead, link.plainTail, markersAll_cons, Marker.test_eq_false harmless, inside]
  rfl

theorem isInvisible_replaced (invisible : operand.isInvisible = true) :
    (replaced operand links).isInvisible = true := by
  induction links generalizing operand with
  | nil => exact invisible
  | cons link links ih => exact ih rfl

theorem markers_replaced (invisible : operand.isInvisible = true) (inside : operand.markers = 0) :
    (replaced operand links).markers = 0 := by
  induction links generalizing operand with
  | nil => exact inside
  | cons link links ih =>
      refine ih rfl (markers_replace ?_ inside)
      cases operand with
      | leaf token => contradiction
      | group bracket children => rfl

/-- `::(&)`. -/
def reference : Link where
  marker := .leaf ⟨.punct, "::", .unknown, ""⟩
  group := .group { delimiter := .paren } [.leaf ⟨.punct, "&", .unknown, ""⟩]
  head := { construct := .reference, keywords := [⟨.punct, "&", .unknown, ""⟩] }
  tail := []
  separator := by decide
  parsed := by rfl
  fits := .prefixed rfl
  plainHead := by decide
  plainTail := rfl

/-- `::(match) \x7b\x7d`. -/
def arms : Link where
  marker := .leaf ⟨.punct, "::", .unknown, ""⟩
  group := .group { delimiter := .paren } [.leaf ⟨.ident, "match", .unknown, ""⟩]
  head := { construct := .matchArms, keywords := [⟨.ident, "match", .unknown, ""⟩] }
  tail := [.group { delimiter := .brace } []]
  separator := by decide
  parsed := by rfl
  fits := .block rfl rfl
  plainHead := by decide
  plainTail := rfl

end Link

theorem Frame.wordsAll_fill {left right : List Tree} (frames : List Frame)
    (same : wordsAll left = wordsAll right) :
    wordsAll (fill frames left) = wordsAll (fill frames right) := by
  induction frames generalizing left right with
  | nil => exact same
  | cons frame frames ih =>
      refine ih ?_
      rw [wordsAll_append, wordsAll_append, wordsAll, wordsAll, words_group frame.bracket same]

/-- A sequence in which constructs are chained behind a plain operand.  What stands before
it is nearest first, and no other tree of the sequence is a marker. -/
structure Chain where
  before : List Tree
  operand : Tree
  first : Link
  others : List Link
  after : List Tree
  plain : Operand.IsPlain operand
  unmarked : operand.markers = 0
  opens : Operand.Opens before
  stops : after.head?.any Body.isElse = false
  passableBefore : Passable (some operand) before.reverse
  passableAfter : Passable none after

namespace Chain

variable (chain : Chain) {settings : Settings}

def links : List Link :=
  chain.first :: chain.others

/-- The sequence as it is written. -/
def trees : List Tree :=
  chain.before.reverse ++ chain.operand :: (Link.treesAll chain.links ++ chain.after)

/-- The constructs in front of the operand. -/
def prefixed : List Tree :=
  Link.nested (chain.first.around chain.operand) chain.others

def replacement : Tree :=
  Link.replaced (chain.first.replace chain.operand) chain.others

def result : List Tree :=
  chain.before.reverse ++ chain.replacement :: chain.after

theorem words_replacement : chain.replacement.words = wordsAll chain.prefixed :=
  Link.words_replaced rfl (Link.words_replace_plain chain.plain)

theorem markers_replacement : chain.replacement.markers = 0 :=
  Link.markers_replaced rfl
    (Link.markers_replace (Operand.isPunct_of_isPlain chain.plain "::") chain.unmarked)

theorem ends_before : EndsHarmlessly chain.before.reverse := by
  intro nearest found
  rw [List.getLast?_reverse] at found
  exact Operand.not_separator_of_isBoundary (chain.opens nearest found)

theorem siblings_trees (progress : Progress) (parenthesize : settings.parenthesize = true)
    (room : progress.splices + chain.links.length ≤ settings.maxSplices) :
    ∃ next : Progress, next.splices = progress.splices + chain.links.length ∧
      next.tolerated = progress.tolerated ∧
      Fronting.siblings settings 0 [] chain.trees progress = .done chain.result next := by
  have harmless := Operand.isPunct_of_isPlain chain.plain "::"
  have taken : Operand.take (chain.before.length + 1 - 0) (chain.operand :: chain.before)
      chain.first.marker = .ok [chain.operand] :=
    Operand.take_plain chain.plain chain.opens
  simp only [links, List.length_cons] at room ⊢
  obtain ⟨between, counted, tolerated, first⟩ := Fronting.siblings_link progress parenthesize
    taken (Link.treesAll_stops chain.others chain.stops) (by omega)
  have isReplacement : (chain.first.replace chain.operand).isInvisible = true := rfl
  obtain ⟨next, countedLater, toleratedLater, later⟩ := Fronting.siblings_links between
    parenthesize chain.others (Nat.zero_le chain.before.length) isReplacement chain.stops
    (by rw [counted]; omega)
  refine ⟨next, by rw [countedLater, counted]; omega, toleratedLater.trans tolerated, ?_⟩
  have start : Fronting.siblings settings 0 [] chain.trees progress =
      Fronting.siblings settings 0 (chain.before.reverse.reverse ++ [])
        (chain.operand :: (Link.treesAll chain.links ++ chain.after)) progress :=
    Fronting.siblings_skipAll chain.passableBefore
  have ended : Fronting.siblings settings 0 (chain.replacement :: chain.before)
        (chain.after ++ []) next =
      Fronting.siblings settings 0 (chain.after.reverse ++ chain.replacement :: chain.before) []
        next :=
    Fronting.siblings_skipAll chain.passableAfter
  rw [List.append_nil, Fronting.siblings_nil, List.reverse_append, List.reverse_reverse,
    List.reverse_cons, List.append_assoc, List.singleton_append] at ended
  rw [start, List.reverse_reverse, List.append_nil,
    Fronting.siblings_skip (Marker.test_eq_false harmless), links, Link.treesAll,
    List.flatMap_cons, List.append_assoc]
  exact (first.trans later).trans ended

/-- What is nested in the other trees of the sequence holds no marker either. -/
def Alone : Prop :=
  ∀ tree ∈ chain.before.reverse ++ chain.after, tree.markers = 0

variable {chain}

theorem markersAll_result (alone : chain.Alone) : markersAll chain.result = 0 := by
  have before : markersBefore (some chain.operand) chain.before.reverse = 0 :=
    markersBefore_eq_zero.mpr
      ⟨chain.passableBefore, fun tree member => alone tree (List.mem_append_left _ member)⟩
  have after : markersAll chain.after = 0 := by
    rw [← markersBefore_none, markersBefore_eq_zero]
    exact ⟨chain.passableAfter, fun tree member => alone tree (List.mem_append_right _ member)⟩
  have invisible : chain.replacement.isInvisible = true := Link.isInvisible_replaced rfl
  have isGroup : chain.replacement.isPunct "::" = false := by
    cases replacement : chain.replacement with
    | leaf token =>
        rw [replacement] at invisible
        contradiction
    | group bracket children => rfl
  rw [result, markersAll_append, chain.ends_before.markersBefore_eq _ (some chain.operand), before,
    markersAll_cons, Marker.test_eq_false isGroup, chain.markers_replacement, after]
  rfl

theorem sequence_trees (progress : Progress) (alone : chain.Alone)
    (parenthesize : settings.parenthesize = true)
    (room : progress.splices + chain.links.length ≤ settings.maxSplices) :
    ∃ next : Progress, next.splices = progress.splices + chain.links.length ∧
      next.tolerated = progress.tolerated ∧
      Fronting.sequence settings chain.trees progress = .done chain.result next := by
  obtain ⟨next, counted, tolerated, scan⟩ := chain.siblings_trees progress parenthesize room
  refine ⟨next, counted, tolerated, ?_⟩
  have unmarked := markersAll_result alone
  rw [← markersBefore_none, markersBefore_eq_zero] at unmarked
  rw [Fronting.sequence_eq, scan]
  exact Fronting.below_still unmarked.2 next

/-- A run over a fragment that holds the sequence, and no marker besides. -/
theorem front_fill (settings : Settings) (frames : List Frame) (bracket : Bracket)
    (alone : chain.Alone) (around : Frame.markersAround frames = 0)
    (parenthesize : settings.parenthesize = true)
    (room : chain.links.length ≤ settings.maxSplices) (passes : 0 < settings.maxPasses)
    (shallow : (Tree.group bracket (Frame.fill frames chain.trees)).depth ≤ Fronting.maxDepth) :
    let run := (Fragment.mk bracket (Frame.fill frames chain.trees)).front settings
    run.result = .ok ⟨bracket, Fragment.settle settings (Frame.fill frames chain.result)⟩ ∧
      run.passes = 1 ∧ run.splices = chain.links.length ∧ run.tolerated = [] := by
  obtain ⟨next, counted, tolerated, done⟩ := sequence_trees
    (Fragment.mk bracket (Frame.fill frames chain.trees)).begun alone parenthesize
    (by simpa using room)
  rw [Fragment.splices_begun, Nat.zero_add] at counted
  rw [Fragment.tolerated_begun] at tolerated
  have unmarked : markersAll (Frame.fill frames chain.result) = 0 := by
    rw [Frame.markersAll_fill, around, markersAll_result alone]
  simp only
  rw [← counted, ← tolerated]
  exact Fragment.front_once shallow passes (Fronting.sequence_fill around done) unmarked

/-- The chaining law.  Links `h₁ t₁`, ..., `hₙ tₙ` behind a plain operand `x` come out as
`hₙ (... (h₁ x t₁) ...) tₙ`.  The scan of their sequence nests them whatever the other
sequences hold.  A run nests them wherever the sequence stands, provided that it is let in,
may make a pass, and meets no other marker. -/
theorem front_nests (chain : Chain) (parenthesize : settings.parenthesize = true) :
    (∀ progress : Progress, progress.splices + chain.links.length ≤ settings.maxSplices →
      ∃ replacement next,
        Fronting.siblings settings 0 [] chain.trees progress =
          .done (chain.before.reverse ++ replacement :: chain.after) next ∧
        replacement.words = wordsAll chain.prefixed ∧
        next.splices = progress.splices + chain.links.length) ∧
    ∀ (frames : List Frame) (bracket : Bracket), chain.Alone → Frame.markersAround frames = 0 →
      chain.links.length ≤ settings.maxSplices → 0 < settings.maxPasses →
      (Tree.group bracket (Frame.fill frames chain.trees)).depth ≤ Fronting.maxDepth →
      ∃ result,
        ((Fragment.mk bracket (Frame.fill frames chain.trees)).front settings).result =
          .ok result ∧
        ((Fragment.mk bracket (Frame.fill frames chain.trees)).front settings).splices =
          chain.links.length ∧
        result.tree.compact =
          (Tree.group bracket (Frame.fill frames
            (chain.before.reverse ++ chain.prefixed ++ chain.after))).compact := by
  refine ⟨?_, ?_⟩
  · intro progress within
    obtain ⟨next, counted, -, scan⟩ := chain.siblings_trees progress parenthesize within
    exact ⟨chain.replacement, next, scan, chain.words_replacement, counted⟩
  · intro frames bracket alone around room passes shallow
    obtain ⟨succeeded, -, splices, -⟩ :=
      front_fill settings frames bracket alone around parenthesize room passes shallow
    refine ⟨_, succeeded, splices, ?_⟩
    have nested : wordsAll chain.result =
        wordsAll (chain.before.reverse ++ chain.prefixed ++ chain.after) := by
      rw [result, wordsAll_append, wordsAll, chain.words_replacement, wordsAll_append,
        wordsAll_append, List.append_assoc]
    rw [Fragment.tree, compact, compact]
    congr 1
    refine words_group bracket ?_
    rw [Fragment.wordsAll_settle]
    exact Frame.wordsAll_fill frames nested

def lone (operand : Tree) (plain : Operand.IsPlain operand) (unmarked : operand.markers = 0)
    (first : Link) (others : List Link) : Chain where
  before := []
  operand := operand
  first := first
  others := others
  after := []
  plain := plain
  unmarked := unmarked
  opens := by simp [Operand.Opens]
  stops := rfl
  passableBefore := trivial
  passableAfter := trivial

theorem alone_lone {operand : Tree} {first : Link} {others : List Link}
    (plain : Operand.IsPlain operand) (unmarked : operand.markers = 0) :
    (lone operand plain unmarked first others).Alone := by
  intro tree member
  contradiction

def fragment (chain : Chain) : Fragment :=
  ⟨{ delimiter := .invisible }, chain.trees⟩

def name : Tree :=
  .leaf ⟨.ident, "x", .unknown, ""⟩

theorem isPlain_name : Operand.IsPlain name := .inr (by decide)

/-- `x::(match) \x7b\x7d::(&)`. -/
theorem front_nests_arms_reference :
    let chain := lone name isPlain_name rfl .arms [.reference]
    ∃ result, (chain.fragment.front {}).result = .ok result ∧
      (chain.fragment.front {}).splices = 2 ∧
      result.tree.compact = "& ( match x \x7b \x7d )" := by
  intro chain
  obtain ⟨result, succeeded, splices, compact⟩ :=
    (@front_nests {} chain rfl).2 [] { delimiter := .invisible } (alone_lone _ _) rfl (by decide)
      (by decide) (by decide)
  exact ⟨result, succeeded, splices, compact.trans (by decide)⟩

def enclosed (times : Nat) : Chain :=
  lone (wrap .paren (times + 1) (.group { delimiter := .invisible } [name]))
    (by simp [wrap, Operand.IsPlain]) (markers_wrap .paren rfl rfl (times + 1)).1 .reference []

theorem lt_depth_enclosed (times : Nat) : times < (enclosed times).fragment.tree.depth := by
  have deep := depth_wrap .paren (times + 1) (.group { delimiter := .invisible } [name])
  simp only [enclosed, fragment, Fragment.tree, Chain.trees, lone, depth, depthAll,
    List.reverse_nil, List.nil_append]
  omega

/-- A run that may make no pass refuses a chain, and any run refuses one whose operand is
nested too deeply. -/
theorem front_refuses_chain :
    ((lone name isPlain_name rfl .reference []).fragment.front { maxPasses := 0 }).result =
        .error ⟨.noFixpoint 0 0, (lone name isPlain_name rfl .reference []).fragment.tree.span,
          none⟩ ∧
      ((enclosed 399).fragment.front {}).result =
        .error ⟨.treeTooDeep, (enclosed 399).fragment.tree.span, none⟩ := by
  constructor
  · rw [Fragment.front_noPass (by decide) (by decide), Fragment.result_stopped]
  · have deep : Fronting.maxDepth < (enclosed 399).fragment.tree.depth :=
      Nat.lt_trans (by decide) (lt_depth_enclosed 399)
    rw [Fragment.front_tooDeep deep, Fragment.result_stopped]

end Chain

end Headfirst
