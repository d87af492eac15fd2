import Headfirst.Proofs.Warnings

namespace Headfirst

open Headfirst.Tree

/-! The places of the trees that a run works on.

A replacement stands at the place of its operand, and so does what is put around an operand.  A
run therefore knows no place that its input does not have, and whatever it finds wrong, in
whichever pass, lies at the place of a tree of the input. -/

namespace Tree

mutual

/-- The places of a tree and of all that is in it, in the order of the text. -/
def locs : Tree → List Loc
  | leaf token => [token.loc]
  | group bracket children => bracket.loc :: locsAll children

def locsAll : List Tree → List Loc
  | [] => []
  | tree :: trees => tree.locs ++ locsAll trees

end

@[simp] theorem locsAll_append (left right : List Tree) :
    locsAll (left ++ right) = locsAll left ++ locsAll right := by
  induction left with
  | nil => rfl
  | cons tree trees ih => simp [locsAll, ih]

theorem mem_locsAll {loc : Loc} {trees : List Tree} :
    loc ∈ locsAll trees ↔ ∃ tree ∈ trees, loc ∈ tree.locs := by
  induction trees with
  | nil => simp [locsAll]
  | cons tree trees ih => simp [locsAll, ih]

/-- A tree all of whose places are known, and are among the given ones. -/
def IsPlaced (places : List Loc) (tree : Tree) : Prop :=
  ∀ loc ∈ tree.locs, loc ∈ places ∧ 0 < loc.line

variable {places : List Loc} {tree : Tree} {trees others : List Tree}

theorem forall_isPlaced_iff :
    (∀ tree ∈ trees, tree.IsPlaced places) ↔
      ∀ loc ∈ locsAll trees, loc ∈ places ∧ 0 < loc.line := by
  constructor
  · intro placed loc member
    obtain ⟨tree, among, within⟩ := mem_locsAll.mp member
    exact placed tree among loc within
  · intro placed tree among loc within
    exact placed loc (mem_locsAll.mpr ⟨tree, among, within⟩)

theorem isPlaced_group {bracket : Bracket} {children : List Tree} :
    (group bracket children).IsPlaced places ↔
      (bracket.loc ∈ places ∧ 0 < bracket.loc.line) ∧
        ∀ child ∈ children, child.IsPlaced places := by
  rw [IsPlaced, locs, List.forall_mem_cons, forall_isPlaced_iff]

theorem IsPlaced.loc (placed : tree.IsPlaced places) : tree.loc ∈ places ∧ 0 < tree.loc.line := by
  cases tree with
  | leaf token => exact placed _ List.mem_cons_self
  | group bracket children => exact placed _ List.mem_cons_self

theorem IsPlaced.children (placed : tree.IsPlaced places) :
    ∀ child ∈ tree.children, child.IsPlaced places := by
  cases tree with
  | leaf token => exact fun _ member => absurd member List.not_mem_nil
  | group bracket children => exact (isPlaced_group.mp placed).2

theorem isPlaced_bare : tree.bare.IsPlaced places ↔ tree.IsPlaced places := by
  cases tree <;> rfl

/-- The trivia of trees says nothing about their places. -/
theorem isPlaced_of_bare (same : trees.map bare = others.map bare)
    (placed : ∀ tree ∈ others, tree.IsPlaced places) : ∀ tree ∈ trees, tree.IsPlaced places :=
  forall_of_bare (fun _ => isPlaced_bare) same placed

theorem isPlaced_firstLoc (nonempty : trees ≠ []) (placed : ∀ tree ∈ trees, tree.IsPlaced places) :
    firstLoc trees ∈ places ∧ 0 < (firstLoc trees).line := by
  cases trees with
  | nil => contradiction
  | cons tree trees =>
      have first := (placed tree List.mem_cons_self).loc
      rw [firstLoc, List.find?_cons_of_pos (by simpa using first.2)]
      exact first

mutual

theorem isPlaced_flatten : ∀ tree : Tree, tree.IsPlaced places →
    ∀ piece ∈ tree.flatten, piece.IsPlaced places
  | leaf token => fun placed => by
      rw [flatten]
      exact List.forall_mem_singleton.mpr placed
  | group bracket children => fun placed => by
      obtain ⟨here, inside⟩ := isPlaced_group.mp placed
      have within := isPlaced_flattenAll children inside
      rw [flatten]
      split
      · exact isPlaced_of_bare (bare_prepend ..) within
      · exact List.forall_mem_singleton.mpr (isPlaced_group.mpr ⟨here, within⟩)

theorem isPlaced_flattenAll : ∀ trees : List Tree, (∀ tree ∈ trees, tree.IsPlaced places) →
    ∀ piece ∈ flattenAll trees, piece.IsPlaced places
  | [] => fun _ => by simp [flattenAll]
  | tree :: trees => fun placed => by
      rw [List.forall_mem_cons] at placed
      rw [flattenAll, List.forall_mem_append]
      exact ⟨isPlaced_flatten tree placed.1, isPlaced_flattenAll trees placed.2⟩

end

/-- The span of a tree whose place is known starts at that place. -/
theorem span_of_isPlaced (placed : tree.IsPlaced places) :
    tree.span.file = tree.loc.file ∧ tree.span.line = tree.loc.line ∧
      tree.span.column = tree.loc.col := by
  have known := placed.loc.2
  cases tree with
  | leaf token =>
      have line : token.loc.line ≠ 0 := Int.ne_of_gt known
      rw [span, if_neg line, Span.ofText]
      split <;> exact ⟨rfl, rfl, rfl⟩
  | group bracket children =>
      have line : bracket.loc.line ≠ 0 := Int.ne_of_gt known
      rw [span, if_neg line]
      split
      · exact ⟨rfl, rfl, rfl⟩
      · rw [Span.ofText]
        split <;> exact ⟨rfl, rfl, rfl⟩

end Tree

/-- A failure at one of some places. -/
def Failure.LiesIn (places : List Loc) (failure : Failure) : Prop :=
  ∃ loc ∈ places, failure.span.line = loc.line ∧ failure.span.column = loc.col

variable {places : List Loc}

namespace Replacement

variable {operand body : List Tree} {head : Head}

theorem isPlaced_wrapped (nonempty : operand ≠ [])
    (placed : ∀ tree ∈ operand, tree.IsPlaced places) (parenthesize : Bool) :
    (wrapped parenthesize operand).IsPlaced places := by
  have bare := isPlaced_of_bare (bare_bareOperand operand) placed
  have some : bareOperand operand ≠ [] := by
    cases operand with
    | nil => contradiction
    | cons tree trees => simp [bareOperand]
  have first := isPlaced_firstLoc some bare
  unfold wrapped
  simp only
  split
  · exact isPlaced_group.mpr ⟨first, bare⟩
  · split
    · rename_i single
      exact bare _ (by simp [single])
    · exact isPlaced_group.mpr ⟨first, bare⟩

theorem isPlaced_make (nonempty : operand ≠ [])
    (placed : ∀ tree ∈ operand, tree.IsPlaced places)
    (inHead : ∀ tree ∈ head.trees, tree.IsPlaced places)
    (inBody : ∀ tree ∈ body, tree.IsPlaced places) (parenthesize : Bool) :
    (make parenthesize operand head body).IsPlaced places := by
  refine isPlaced_group.mpr ⟨isPlaced_firstLoc nonempty placed, ?_⟩
  refine isPlaced_of_bare (bare_spaced _) ?_
  rw [List.forall_mem_append, List.forall_mem_cons]
  exact ⟨inHead, isPlaced_wrapped nonempty placed parenthesize, inBody⟩

end Replacement

namespace Site

variable {site : Site} {reach : Nat} {occurrence : Occurrence}

theorem isPlaced_spliced (resolved : site.resolve reach = .ok occurrence)
    (placed : ∀ tree ∈ site.trees, tree.IsPlaced places) (parenthesize : Bool) :
    ∀ tree ∈ spliced occurrence parenthesize, tree.IsPlaced places := by
  obtain ⟨group, parsed, nonempty, before, after⟩ := resolve_parts resolved
  rw [trees, before, after] at placed
  simp only [List.forall_mem_append, List.forall_mem_cons] at placed
  obtain ⟨⟨ahead, operand⟩, -, head, body, behind⟩ := placed
  have inHead := head.children
  rw [← Head.ofGroup_trees parsed] at inHead
  rw [spliced, List.forall_mem_append, List.forall_mem_cons]
  exact ⟨ahead, Replacement.isPlaced_make nonempty operand inHead body parenthesize, behind⟩

/-- An occurrence is malformed at a tree whose places are known. -/
theorem exists_culprit {failure : Failure} (failed : site.resolve reach = .error failure)
    (placed : ∀ tree ∈ site.trees, tree.IsPlaced places) :
    ∃ tree : Tree, tree.IsPlaced places ∧ failure.span = tree.span := by
  obtain ⟨-, ⟨tree, suspect, span⟩, -⟩ := resolve_error failed
  refine ⟨tree, ?_, span⟩
  have among : ∀ tree ∈ site.before ++ site.marker :: site.after, tree.IsPlaced places := by
    intro tree member
    exact placed tree (by simpa [trees] using member)
  rcases List.mem_append.mp suspect with member | inHead
  · exact among tree member
  · cases following : site.after with
    | nil => simp [following] at inHead
    | cons group after =>
        rw [following] at inHead
        exact (among group (by simp [following])).children tree inHead

theorem placed_failure {failure : Failure} (failed : site.resolve reach = .error failure)
    (placed : ∀ tree ∈ site.trees, tree.IsPlaced places) :
    failure.LiesIn places := by
  obtain ⟨tree, known, span⟩ := exists_culprit failed placed
  refine ⟨tree.loc, known.loc.1, ?_⟩
  rw [span]
  exact (span_of_isPlaced known).2

end Site

/-- A sweep knows no new place, and each of its moves is made among trees whose places are
known. -/
theorem Sweep.isPlaced {parenthesize : Bool} {stand last : Stand} {moves : List Move}
    (sweep : Sweep parenthesize stand moves last)
    (placed : ∀ tree ∈ stand.trees, tree.IsPlaced places) :
    (∀ failure ∈ moves.filterMap Move.failure?, failure.LiesIn places) ∧
    ∀ tree ∈ last.trees, tree.IsPlaced places := by
  induction sweep with
  | rest => exact ⟨by simp, placed⟩
  | skip noMarker later ih => exact ih (by simpa [Stand.trees] using placed)
  | @leave floor before after tree failure moves last isMarker failed later ih =>
      obtain ⟨others, final⟩ := ih (by simpa [Stand.trees] using placed)
      exact ⟨List.forall_mem_cons.mpr ⟨Site.placed_failure failed placed, others⟩, final⟩
  | splice isMarker resolved later ih =>
      have next := Site.isPlaced_spliced resolved placed parenthesize
      exact ih (by simpa [Stand.trees, Site.spliced] using next)

namespace Frame

theorem isPlaced_of_fill {trees : List Tree} {frames : List Frame}
    (placed : ∀ tree ∈ fill frames trees, tree.IsPlaced places) :
    (∀ tree ∈ trees, tree.IsPlaced places) ∧
      ∀ others : List Tree, (∀ tree ∈ others, tree.IsPlaced places) →
        ∀ tree ∈ fill frames others, tree.IsPlaced places := by
  induction frames generalizing trees with
  | nil => exact ⟨placed, fun _ others => others⟩
  | cons frame frames ih =>
      obtain ⟨level, around⟩ := ih placed
      rw [List.forall_mem_append, List.forall_mem_cons, isPlaced_group] at level
      obtain ⟨before, ⟨bracket, within⟩, after⟩ := level
      refine ⟨within, fun others other => around _ ?_⟩
      rw [List.forall_mem_append, List.forall_mem_cons, isPlaced_group]
      exact ⟨before, ⟨bracket, other⟩, after⟩

end Frame

theorem Tour.isPlaced {parenthesize : Bool} {start final : List Tree} {visits : List Visit}
    (tour : Tour parenthesize start visits final)
    (placed : ∀ tree ∈ start, tree.IsPlaced places) :
    (∀ failure ∈ (Visit.movesAll visits).filterMap Move.failure?, failure.LiesIn places) ∧
    ∀ tree ∈ final, tree.IsPlaced places := by
  induction tour with
  | done => exact ⟨by simp [Visit.movesAll], placed⟩
  | visit sweep rest ih =>
      obtain ⟨within, around⟩ := Frame.isPlaced_of_fill placed
      obtain ⟨here, left⟩ := sweep.isPlaced within
      obtain ⟨others, last⟩ := ih (around _ left)
      refine ⟨?_, last⟩
      rw [Visit.movesAll, List.flatMap_cons, List.filterMap_append, List.forall_mem_append]
      exact ⟨here, others⟩

namespace Fragment

variable {settings : Settings} {fragment result : Fragment}

/-- A run over trees whose places are known.  Each of its warnings lies at one of these places, and
the trees of its result have no others. -/
theorem front_isPlaced (placed : ∀ tree ∈ fragment.children, tree.IsPlaced places) :
    (∀ failure ∈ (fragment.front settings).tolerated, failure.LiesIn places) ∧
    ∀ result, (fragment.front settings).result = .ok result →
      ∀ tree ∈ result.children, tree.IsPlaced places := by
  obtain ⟨visits, final, tour, -, tolerated, succeeded⟩ := front_toured settings fragment
  obtain ⟨failures, last⟩ := tour.isPlaced placed
  refine ⟨?_, ?_⟩
  · intro failure member
    rw [tolerated] at member
    rcases Progress.mem_noted member with none | noted
    · contradiction
    · exact failures failure noted
  · intro result ok
    rw [succeeded result ok]
    rcases settle_cases settings final with kept | dissolved
    · simpa only [kept] using last
    · simpa only [dissolved] using isPlaced_flattenAll final last

end Fragment

end Headfirst
