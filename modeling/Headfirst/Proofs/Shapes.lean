import Headfirst.Proofs.Arrangement
import Headfirst.Proofs.Boundaries
import Headfirst.Proofs.Exposure

namespace Headfirst

open Headfirst.Tree

/-! The shape of a replacement.

A replacement can be read back because of its shape: the trees of the head, one tree that holds the
operand, and the body, with something between each two of them.  The tree in the middle is the
operand itself if that is one tree of the source, and otherwise a group in parentheses around it. -/

namespace Replacement

variable {operand body : List Tree} {head : Head} {tree : Tree}

/-- An operand of more than one tree, or an earlier replacement. -/
def Compound (operand : List Tree) : Prop :=
  1 < operand.length ∨ ∃ tree, operand = [tree] ∧ tree.isInvisible = true

/-- A tree that is a token or a delimited group, and holds an operand: in parentheses the trees of a
compound operand, and otherwise it is the one tree of the operand, up to the trivia in front. -/
structure Holds (operand : List Tree) (tree : Tree) : Prop where
  visible : tree.isInvisible = false
  wrapped_iff : (∃ bracket, bracket.delimiter = .paren ∧
    tree = .group bracket (bareOperand operand)) ↔ Compound operand
  alone : ¬ Compound operand → operand.map bare = [tree.bare]

/-- Trees of which the first has no trivia in front of it, and each later one has some. -/
def Spaced (trees : List Tree) : Prop :=
  (∀ first, trees.head? = some first → first.leading = "") ∧
    ∀ later ∈ trees.tail, later.leading ≠ ""

theorem leading_separated (tree : Tree) : tree.separated.leading ≠ "" := by
  unfold separated
  split
  · simp
  · assumption

theorem spaced_spaced (trees : List Tree) : Spaced (spaced trees) := by
  cases trees with
  | nil => exact ⟨by simp [spaced], by simp [spaced]⟩
  | cons first others =>
      refine ⟨fun tree same => ?_, fun later member => ?_⟩
      · cases same
        exact leading_withLeading ..
      · obtain ⟨tree, -, rfl⟩ := List.mem_map.mp member
        exact leading_separated tree

theorem needsParens_iff (nonempty : operand ≠ []) :
    needsParens (bareOperand operand) = true ↔ Compound operand := by
  match operand with
  | [] => contradiction
  | [tree] =>
      have same : (tree.withLeading "").isInvisible = tree.isInvisible := isGroup_bare .invisible
      simp [bareOperand, needsParens, Compound, same]
  | first :: second :: others => simp [bareOperand, needsParens, Compound]

theorem wrapped_compound (nonempty : operand ≠ []) (compound : Compound operand) :
    ∃ bracket, bracket.delimiter = .paren ∧
      wrapped true operand = .group bracket (bareOperand operand) := by
  simp only [wrapped, (needsParens_iff nonempty).mpr compound, Bool.and_self, if_true]
  exact ⟨_, rfl, rfl⟩

theorem wrapped_alone (nonempty : operand ≠ []) (alone : ¬ Compound operand) :
    ∃ only, operand = [only] ∧ wrapped true operand = only.bare := by
  have bare := Bool.eq_false_iff.mpr (mt (needsParens_iff nonempty).mp alone)
  match operand with
  | [] => contradiction
  | [only] =>
      refine ⟨only, rfl, ?_⟩
      simp only [wrapped, bare, Bool.and_false, Bool.false_eq_true, if_false]
      rfl
  | first :: second :: others => exact absurd (.inl (by simp)) alone

theorem holds_wrapped (nonempty : operand ≠ []) (leading : String) :
    Holds operand ((wrapped true operand).withLeading leading) := by
  have visible : ((wrapped true operand).withLeading leading).isInvisible = false := by
    rw [← wrapped_visible nonempty]
    cases wrapped true operand <;> rfl
  by_cases compound : Compound operand
  · obtain ⟨bracket, paren, same⟩ := wrapped_compound nonempty compound
    refine ⟨visible, iff_of_true ⟨{ bracket with leading }, paren, ?_⟩ compound, ?_⟩
    · rw [same]
      rfl
    · exact fun alone => absurd compound alone
  · obtain ⟨only, rfl, same⟩ := wrapped_alone nonempty compound
    refine ⟨visible, iff_of_false ?_ compound, fun _ => ?_⟩
    · -- no tree is a group around itself
      rintro ⟨bracket, -, wraps⟩
      have sizes := congrArg Tree.size wraps
      simp only [same, bareOperand, bare, size_withLeading, Tree.size, sizeAll] at sizes
      omega
    · have twice : only.bare.bare = only.bare := bare_withLeading
      simp [same, twice]

/-- The children of a replacement: head, operand and body, each two of them kept apart. -/
theorem children_make (nonempty : operand ≠ []) :
    Spaced (make true operand head body).children ∧
      ∃ front middle back, (make true operand head body).children = front ++ middle :: back ∧
        front.map bare = head.trees.map bare ∧ Holds operand middle ∧
        back.map bare = body.map bare := by
  refine ⟨spaced_spaced _, ?_⟩
  have same := bare_spaced (head.trees ++ wrapped true operand :: body)
  change (make true operand head body).children.map bare = _ at same
  rw [List.map_append, List.map_cons] at same
  obtain ⟨front, rest, children, inFront, behind⟩ := List.map_eq_append_iff.mp same
  obtain ⟨middle, back, rfl, inside, inBack⟩ := List.map_eq_cons_iff.mp behind
  refine ⟨front, middle, back, children, inFront, ?_, inBack⟩
  rw [eq_withLeading_of_bare inside]
  exact holds_wrapped nonempty _

end Replacement

namespace Site

open Operand Replacement

variable {trees : List Tree} {place floor : Nat} {site : Site} {occurrence : Occurrence}

/-- A sequence around the marker at `place`, cut into the parts of an occurrence. -/
structure Cut (trees : List Tree) (place : Nat) (marker group : Tree) (occurrence : Occurrence) :
    Prop where
  parsed : Head.ofGroup group = .ok occurrence.head
  nonempty : occurrence.operand ≠ []
  whole : trees = occurrence.before.reverse ++
    (occurrence.operand ++ marker :: group :: (occurrence.body ++ occurrence.after))
  here : occurrence.markerIndex = place

/-- The parts of a site are those of its sequence. -/
theorem of_ofIndex_eq (stands : ofIndex trees place = some site) :
    (trees.take place).reverse = site.before ∧ trees.drop place = site.marker :: site.after := by
  unfold ofIndex at stands
  split at stands
  · contradiction
  · rename_i found
    cases stands
    exact ⟨rfl, found⟩

theorem exists_cut (stands : ofIndex trees place = some site) {reach : Nat}
    (resolved : site.resolve reach = .ok occurrence) :
    ∃ group, Cut trees place site.marker group occurrence := by
  obtain ⟨ahead, behind⟩ := of_ofIndex_eq stands
  obtain ⟨-, length, -⟩ := of_ofIndex stands
  obtain ⟨group, parsed, nonempty, before, after⟩ := resolve_parts resolved
  refine ⟨group, parsed, nonempty, ?_, ?_⟩
  · rw [← List.take_append_drop place trees, behind, after, ← List.append_assoc, ← before, ← ahead,
      List.reverse_reverse]
  · rw [← length, ← List.length_reverse, before, List.length_append, List.length_reverse]
    rfl

/-- A replacement of the trees from `start` up to `stop`, the marker at `place`. -/
structure IsReplacement (trees : List Tree) (start place stop : Nat) (replacement : Tree) :
    Prop where
  invisible : replacement.isInvisible = true
  leading : trees[start]?.map Tree.leading = some replacement.leading
  spaced : Spaced replacement.children
  parts : ∃ group front middle back, trees[place + 1]? = some group ∧
    group.isGroup .paren = true ∧ replacement.children = front ++ middle :: back ∧
    front.map Tree.bare = group.children.map Tree.bare ∧
    Holds ((trees.take place).drop start) middle ∧
    back.map Tree.bare = ((trees.take stop).drop (place + 2)).map Tree.bare

namespace Cut

variable {marker group : Tree} (cut : Cut trees place marker group occurrence)

include cut

theorem bounds : occurrence.start < place ∧ place + 1 < occurrence.stop ∧
    occurrence.stop ≤ trees.length := by
  have some := List.length_pos_iff.mpr cut.nonempty
  have length := congrArg List.length cut.whole
  have here := cut.here
  simp only [List.length_append, List.length_cons, List.length_reverse] at length
  simp only [Occurrence.stop, Occurrence.markerIndex, Occurrence.start] at here ⊢
  omega

theorem ahead : trees.take occurrence.start = occurrence.before.reverse := by
  rw [cut.whole]
  exact List.take_left' List.length_reverse

theorem behind_start : trees.drop occurrence.start =
    occurrence.operand ++ marker :: group :: (occurrence.body ++ occurrence.after) := by
  rw [cut.whole]
  exact List.drop_left' List.length_reverse

theorem operand : (trees.take place).drop occurrence.start = occurrence.operand := by
  have count : place - occurrence.start = occurrence.operand.length := by
    rw [← cut.here, Occurrence.markerIndex, Nat.add_sub_cancel_left]
  rw [List.drop_take, cut.behind_start, count, List.take_left]

theorem behind_marker : trees.drop (place + 1) =
    group :: (occurrence.body ++ occurrence.after) := by
  have count : place + 1 = occurrence.start + (occurrence.operand.length + 1) := by
    rw [← cut.here, Occurrence.markerIndex, Nat.add_assoc]
  rw [count, ← List.drop_drop, cut.behind_start, ← List.drop_drop, List.drop_left]
  rfl

theorem behind_head : trees.drop (place + 2) = occurrence.body ++ occurrence.after := by
  rw [show place + 2 = place + 1 + 1 from rfl, ← List.drop_drop, cut.behind_marker]
  rfl

theorem body : (trees.take occurrence.stop).drop (place + 2) = occurrence.body := by
  rw [List.drop_take, cut.behind_head, Occurrence.stop, cut.here, Nat.add_sub_cancel_left,
    List.take_left]

theorem after : trees.drop occurrence.stop = occurrence.after := by
  rw [Occurrence.stop, cut.here, ← List.drop_drop, cut.behind_head, List.drop_left]

theorem spliced (parenthesize : Bool) : Site.spliced occurrence parenthesize =
    trees.take occurrence.start ++ occurrence.replacement parenthesize ::
      trees.drop occurrence.stop := by
  rw [cut.ahead, cut.after]
  rfl

theorem isReplacement : IsReplacement trees occurrence.start place occurrence.stop
    (occurrence.replacement true) := by
  have first : trees[occurrence.start]? = occurrence.operand.head? := by
    rw [← List.head?_drop, cut.behind_start]
    cases operand : occurrence.operand with
    | nil => exact absurd operand cut.nonempty
    | cons tree others => rfl
  obtain ⟨spaced, front, middle, back, children, inFront, holds, inBack⟩ :=
    @children_make occurrence.operand occurrence.body occurrence.head cut.nonempty
  refine ⟨rfl, ?_, spaced, group, front, middle, back, ?_, ?_, children, ?_, ?_, ?_⟩
  · rw [first]
    cases operand : occurrence.operand with
    | nil => exact absurd operand cut.nonempty
    | cons tree others => simp [Occurrence.replacement, make, Tree.leading, operand]
  · rw [← List.head?_drop, cut.behind_marker]
    rfl
  · exact Head.ofGroup_isGroup cut.parsed
  · rw [inFront, Head.ofGroup_trees cut.parsed]
  · rwa [cut.operand]
  · rwa [cut.body]

end Cut

/-- What takes the place of an occurrence, with parentheses around operands.  Its children are, up
to the trivia in front of them, those of the head, one tree that holds the operand, and the body.
The scan goes on with the replacement between the trees in front of the occurrence and those behind
it, which are what they were. -/
theorem isReplacement_of_resolve (stands : ofIndex trees place = some site)
    (resolved : site.resolve (place - floor) = .ok occurrence) :
    occurrence.start < place ∧ occurrence.markerIndex = place ∧ place + 1 < occurrence.stop ∧
      occurrence.stop ≤ trees.length ∧
      IsReplacement trees occurrence.start place occurrence.stop (occurrence.replacement true) ∧
      spliced occurrence true = trees.take occurrence.start ++
        occurrence.replacement true :: trees.drop occurrence.stop ∧
      ∀ (settings : Settings) (progress : Progress), settings.parenthesize = true →
        Marker.test site.marker site.after.head? = true →
        progress.splices + 1 ≤ settings.maxSplices →
        Fronting.siblings settings floor (trees.take place).reverse (trees.drop place) progress =
          Fronting.siblings settings floor
            (occurrence.replacement true :: (trees.take occurrence.start).reverse)
            (trees.drop occurrence.stop)
            (Fronting.spliced settings site (place - floor) occurrence progress) := by
  obtain ⟨group, cut⟩ := exists_cut stands resolved
  obtain ⟨operand, head, within⟩ := cut.bounds
  refine ⟨operand, cut.here, head, within, cut.isReplacement, cut.spliced true, ?_⟩
  intro settings progress parenthesize isMarker room
  obtain ⟨ahead, behind⟩ := of_ofIndex_eq stands
  obtain ⟨-, length, -⟩ := of_ofIndex stands
  have reach : (site.before.length - floor) = place - floor := by rw [length]
  rw [ahead, behind, Fronting.siblings_splice isMarker (by rw [reach]; exact resolved) room,
    parenthesize, cut.ahead, List.reverse_reverse, cut.after, reach]

/-- A sum behind a statement: the parentheses go around it, and the comment in front of it goes in
front of the whole. -/
theorem isReplacement_of_resolve_sum :
    ∃ fragment site occurrence,
      Fragment.read "f(); /* c */ a + b::(match) \x7b\x7d ;" "main.rs" = .ok fragment ∧
      ofIndex fragment.children 6 = some site ∧ site.resolve (6 - 0) = .ok occurrence ∧
      occurrence.start = 3 ∧ occurrence.stop = 9 ∧
      (occurrence.replacement true).leading = " /* c */ " ∧
      (occurrence.replacement true).render = "match (a + b) \x7b\x7d" ∧
      IsReplacement fragment.children 3 6 9 (occurrence.replacement true) ∧
      spliced occurrence true = fragment.children.take 3 ++
        occurrence.replacement true :: fragment.children.drop 9 := by
  have run : (Fragment.read "f(); /* c */ a + b::(match) \x7b\x7d ;" "main.rs").toOption.any
      fun fragment => (ofIndex fragment.children 6).any fun site =>
        (site.resolve (6 - 0)).toOption.any fun occurrence =>
          occurrence.start == 3 && occurrence.stop == 9 &&
            (occurrence.replacement true).leading == " /* c */ " &&
            (occurrence.replacement true).render == "match (a + b) \x7b\x7d" := by
    decide +kernel
  obtain ⟨fragment, lexed, run⟩ := exists_ok_of_any run
  rw [Option.any_eq_true] at run
  obtain ⟨site, stands, run⟩ := run
  obtain ⟨occurrence, resolved, run⟩ := exists_ok_of_any run
  simp only [Bool.and_eq_true, beq_iff_eq] at run
  obtain ⟨⟨⟨start, stop⟩, leading⟩, printed⟩ := run
  have shape := isReplacement_of_resolve stands resolved
  rw [start, stop] at shape
  exact ⟨fragment, site, occurrence, lexed, stands, resolved, start, stop, leading, printed,
    shape.2.2.2.2.1, shape.2.2.2.2.2.1⟩

end Site

end Headfirst
