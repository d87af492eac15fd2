import Headfirst.Proofs.Dissolving
import Headfirst.Proofs.Fitting
import Headfirst.Proofs.Tidy

namespace Headfirst

open Headfirst.Tree

/-! Occurrences that can be resolved only where invisible groups are dissolved.

An occurrence that has no operand, no head or no block has none either where invisible groups are
dissolved, since these are closed.  What the dissolving can mend is a head with such a group in
it, or an `else` chain that meets one. -/

namespace Site

theorem isPinned_bare (before : List Tree) : isPinned (before.map Tree.bare) = isPinned before := by
  match before with
  | [] => rfl
  | [first] => simp [isPinned]
  | [first, second] => simp [isPinned]
  | first :: second :: third :: before => simp [isPinned]

theorem hasOperand_bare (before : List Tree) :
    hasOperand (before.map Tree.bare) = hasOperand before := by
  unfold hasOperand
  rw [isPinned_bare]
  cases before with
  | nil => rfl
  | cons nearest before => cases nearest <;> rfl

theorem isSome_failure?_bare (site : Site) : site.bare.failure?.isSome = site.failure?.isSome := by
  have same : site.bare.failure? = none ↔ site.failure? = none := by
    rw [failure?_eq_none_iff, failure?_eq_none_iff, bare, hasOperand_bare]
  rw [Bool.eq_iff_iff, ← Option.ne_none_iff_isSome, ← Option.ne_none_iff_isSome]
  exact not_congr same

end Site

namespace Post

/-- Whether a marker can be resolved only where invisible groups are dissolved. -/
def IsMended (post : Post) : Prop :=
  post.isKept = true ∧ post.dissolved.failure? = none

end Post

section

variable {before others : List Tree}

theorem flatten_of_isGroup {delimiter : Delimiter} {tree : Tree}
    (isGroup : tree.isGroup delimiter = true) (visible : delimiter ≠ .invisible) :
    ∃ dissolved, tree.flatten = [dissolved] ∧ dissolved.isGroup delimiter = true := by
  obtain ⟨bracket, children, rfl, rfl⟩ := eq_group_of_isGroup isGroup
  exact ⟨.group bracket (flattenAll children), by rw [flatten, if_neg visible], isGroup⟩

theorem flatten_of_isPunct {text : String} {tree : Tree} (punct : tree.isPunct text = true) :
    tree.flatten = [tree] := by
  cases tree with
  | leaf token => rfl
  | group bracket children => contradiction

theorem Site.isPinned_dissolved (pinned : isPinned before = true) (others : List Tree) :
    isPinned (flattenBefore before ++ others) = true := by
  match before with
  | [] => contradiction
  | [first] =>
      have isPin : first.isPunct "::" = true := by simpa [isPinned] using pinned
      simp [flattenBefore_cons, flatten_of_isPunct isPin, isPinned, isPin]
  | first :: second :: farther =>
      simp only [isPinned, Bool.or_eq_true, Bool.and_eq_true] at pinned
      rcases pinned with isPin | ⟨isHead, isPin⟩ | ⟨⟨isBlock, isHead⟩, isPin⟩
      · simp [flattenBefore_cons, flatten_of_isPunct isPin, isPinned, isPin]
      · obtain ⟨head, flat, isHead⟩ := flatten_of_isGroup isHead (by decide)
        simp [flattenBefore_cons, flat, flatten_of_isPunct isPin, isPinned, isPin, isHead]
      · obtain ⟨block, flatBlock, isBlock⟩ := flatten_of_isGroup isBlock (by decide)
        obtain ⟨head, flat, isHead⟩ := flatten_of_isGroup isHead (by decide)
        cases farther with
        | nil => contradiction
        | cons third farther =>
            simp only [List.head?_cons, Option.any_some] at isPin
            simp [flattenBefore_cons, flat, flatBlock, flatten_of_isPunct isPin, isPinned, isPin,
              isHead, isBlock]

/-- What stops the search for an operand still does where groups are dissolved. -/
theorem Site.hasOperand_of_dissolved (nonempty : before ≠ [])
    (found : hasOperand (flattenBefore before ++ others) = true) : hasOperand before = true := by
  cases before with
  | nil => contradiction
  | cons nearest farther =>
      have free : isPinned (nearest :: farther) = false := by
        rw [Bool.eq_false_iff]
        intro pinned
        simp [hasOperand, isPinned_dissolved pinned] at found
      rw [hasOperand, free]
      cases nearest with
      | leaf token =>
          simp only [flattenBefore_cons, flatten, List.reverse_singleton,
            List.cons_append, hasOperand, Bool.and_eq_true] at found
          simpa using found.1
      | group bracket children => rfl

end

/-! The occurrences of a tidy tree. -/

namespace Post

/-- Whether the sequence of a marker is held together by an invisible group. -/
def isEnclosed (post : Post) : Bool :=
  post.frames.head?.any (·.bracket.delimiter == .invisible)

/-- The sequence of a marker is tidy, and closed if it stands in an invisible group. -/
structure IsTidy (post : Post) : Prop where
  tidy : areTidy post.site.trees = true
  closed : post.isEnclosed = true → isClosed post.site.trees = true

end Post

mutual

theorem Tree.tidy_postsBelow (frames : List Frame) (before after : List Tree) : ∀ tree : Tree,
    tree.isTidy = true → ∀ post ∈ tree.postsBelow frames before after, post.IsTidy
  | leaf token, _ => by simp [postsBelow]
  | group bracket children, tidy => by
      simp only [isTidy, Bool.and_eq_true] at tidy
      refine tidy_postsAll _ [] children tidy.2 ?_
      intro enclosed
      simp only [List.head?_cons, Option.any_some, beq_iff_eq] at enclosed
      simpa [enclosed] using tidy.1

theorem Tree.tidy_postsAll (frames : List Frame) (before : List Tree) : ∀ rest : List Tree,
    areTidy (before.reverse ++ rest) = true →
    (frames.head?.any (·.bracket.delimiter == .invisible) = true →
      isClosed (before.reverse ++ rest) = true) →
    ∀ post ∈ postsAll frames before rest, post.IsTidy
  | [], _, _ => by simp [postsAll]
  | tree :: after, tidy, closed => by
      intro post member
      rw [postsAll, List.mem_append, List.mem_append] at member
      rcases member with (here | inside) | later
      · split at here
        · cases List.mem_singleton.mp here
          exact ⟨tidy, closed⟩
        · contradiction
      · rw [areTidy_append, areTidy, Bool.and_eq_true, Bool.and_eq_true] at tidy
        exact tidy_postsBelow frames before after tree tidy.2.1.1.1 post inside
      · have joined : before.reverse ++ tree :: after = (tree :: before).reverse ++ after := by simp
        rw [joined] at tidy closed
        exact tidy_postsAll frames (tree :: before) after tidy closed post later

end

theorem Tree.tidy_posts {trees : List Tree} (tidy : areTidy trees = true) :
    ∀ post ∈ posts trees, post.IsTidy :=
  tidy_postsAll [] [] trees tidy (by simp)

namespace Post

/-- What the dissolving of groups can mend: a head that holds an invisible group, and an `else`
chain that meets one or that stands in one. -/
inductive IsLoose (post : Post) : Prop where
  | head {group : Tree} {rest : List Tree} {failure : Failure}
      (after : post.site.after = group :: rest) (isHead : group.isGroup .paren = true)
      (malformed : Head.ofGroup group = .error failure) (holds : group.isVisible = false)
  | chain {group block : Tree} {rest : List Tree} {head : Head} {failure : Failure}
      (after : post.site.after = group :: block :: rest) (parsed : Head.ofGroup group = .ok head)
      (takesElse : head.construct.takesElse = true) (isBlock : Body.isBlock block = true)
      (broken : Body.elseChain rest = .error failure)
      (meets : areVisible rest = false ∨ post.isEnclosed = true)

variable {post : Post}

theorem dissolved_of_not_isEnclosed (free : post.isEnclosed = false) :
    Frame.ahead post.frames = [] ∧ Frame.behind post.frames = [] := by
  unfold isEnclosed at free
  cases frames : post.frames with
  | nil => exact ⟨rfl, rfl⟩
  | cons frame frames =>
      rw [‹post.frames = _›] at free
      simp only [List.head?_cons, Option.any_some, beq_eq_false_iff_ne] at free
      exact ⟨by rw [Frame.ahead, if_neg free], by rw [Frame.behind, if_neg free]⟩

theorem IsTidy.hasOperand (tidy : post.IsTidy)
    (isMarker : Marker.test post.site.marker post.site.after.head? = true)
    (found : Site.hasOperand post.dissolved.before = true) :
    Site.hasOperand post.site.before = true := by
  refine Site.hasOperand_of_dissolved ?_ found
  intro none
  cases enclosed : post.isEnclosed with
  | true =>
      have closed := tidy.closed enclosed
      simp [isClosed, Site.trees, none, beginsClosed, isMarker] at closed
  | false =>
      rw [dissolved, none, (dissolved_of_not_isEnclosed enclosed).1] at found
      contradiction

/-- Behind a marker stands no invisible group that begins with a head. -/
theorem IsTidy.opensPlain (tidy : post.IsTidy)
    (isMarker : Marker.test post.site.marker post.site.after.head? = true) {next : Tree}
    {rest : List Tree} (after : post.site.after = next :: rest) (invisible : next.isInvisible = true) :
    next.opensPlain = true := by
  obtain ⟨token, marker, separator⟩ := Marker.eq_leaf_of_test isMarker
  have whole := tidy.tidy
  rw [Site.trees, after, marker, areTidy_append] at whole
  have meets := whole.2.1
  simp only [areTidy, List.head?_cons, Option.all_some, Bool.and_eq_true] at meets
  simpa [Tree.meets, invisible, isPlainToken, anyToken, separator] using meets.1.2

theorem IsTidy.opensPlain_second (tidy : post.IsTidy) {group next : Tree} {rest : List Tree}
    (after : post.site.after = group :: next :: rest) (isHead : group.isGroup .paren = true)
    (invisible : next.isInvisible = true) : next.opensPlain = true := by
  have whole := tidy.tidy
  rw [Site.trees, after, areTidy_append] at whole
  have meets := whole.2.1
  simp only [areTidy, List.head?_cons, Option.all_some, Bool.and_eq_true] at meets
  simpa [Tree.meets, invisible, not_isPlainToken_of_isGroup isHead] using meets.2.1.2

end Post

theorem Tree.flatten_of_opensPlain : ∀ tree : Tree, tree.opensPlain = true →
    ∃ token others, tree.flatten = .leaf token :: others
  | .leaf token, _ => ⟨token, [], rfl⟩
  | .group bracket [], opens => by simp [opensPlain, openPlain] at opens
  | .group bracket (first :: others), opens => by
      simp only [opensPlain, openPlain, Bool.and_eq_true, beq_iff_eq] at opens
      obtain ⟨token, rest, begins⟩ := flatten_of_opensPlain first opens.2
      rw [flatten, if_pos opens.1, flattenAll, begins]
      exact ⟨_, _, rfl⟩

namespace Post

variable {post : Post}

/-- Where a head with its construct follows a marker once groups are dissolved, it stood there
before, with the same children or with groups among them. -/
theorem IsTidy.exists_head (tidy : post.IsTidy)
    (isMarker : Marker.test post.site.marker post.site.after.head? = true)
    (fit : Site.IsFit post.dissolved.after) :
    ∃ bracket children rest head, post.site.after = .group bracket children :: rest ∧
      bracket.delimiter = .paren ∧
      Head.ofGroup (.group bracket (flattenAll children)) = .ok head ∧
      Body.Follows head.construct (flattenAll rest ++ Frame.behind post.frames) := by
  obtain ⟨group, others, head, following, parsed, follows⟩ := Site.isFit_iff.mp fit
  rw [dissolved] at following
  cases after : post.site.after with
  | nil =>
      cases enclosed : post.isEnclosed with
      | true =>
          have closed := tidy.closed enclosed
          obtain ⟨token, marker, separator⟩ := Marker.eq_leaf_of_test isMarker
          simp [isClosed, Site.trees, after, endsClosed, marker, Tree.isPunct, anyToken,
            separator] at closed
      | false =>
          rw [after, (dissolved_of_not_isEnclosed enclosed).2] at following
          contradiction
  | cons first rest =>
      rw [after, flattenAll] at following
      cases first with
      | leaf token =>
          cases following
          contradiction
      | group bracket children =>
          by_cases invisible : bracket.delimiter = .invisible
          · have opens := tidy.opensPlain isMarker after (by simp [isInvisible, isGroup, invisible])
            obtain ⟨token, front, begins⟩ := flatten_of_opensPlain _ opens
            rw [begins] at following
            cases following
            contradiction
          · rw [flatten, if_neg invisible] at following
            cases following
            have isHead : bracket.delimiter = .paren := by
              simpa [isGroup] using Head.ofGroup_isGroup parsed
            exact ⟨bracket, children, rest, head, rfl, isHead, parsed, follows⟩

/-- A body that follows a head once groups are dissolved stood there before, up to its `else`
chain. -/
theorem IsTidy.exists_block (tidy : post.IsTidy)
    (isMarker : Marker.test post.site.marker post.site.after.head? = true) {group : Tree}
    {rest : List Tree} {construct : Construct} (after : post.site.after = group :: rest)
    (isHead : group.isGroup .paren = true) (takesBody : construct.takesBody = true)
    (follows : Body.Follows construct (flattenAll rest ++ Frame.behind post.frames)) :
    ∃ block others, rest = block :: others ∧ Body.isBlock block = true ∧
      (construct.takesElse = true →
        ∃ chain, Body.elseChain (flattenAll others ++ Frame.behind post.frames) = .ok chain) := by
  obtain ⟨block, others, following, isBlock, chain⟩ := follows takesBody
  cases rest with
  | nil =>
      cases enclosed : post.isEnclosed with
      | true =>
          have closed := tidy.closed enclosed
          obtain ⟨token, marker, separator⟩ := Marker.eq_leaf_of_test isMarker
          simp [isClosed, Site.trees, after, endsClosed, marker, Tree.isPunct, anyToken,
            separator, isHead] at closed
      | false =>
          rw [(dissolved_of_not_isEnclosed enclosed).2] at following
          contradiction
  | cons first rest =>
      rw [flattenAll] at following
      cases first with
      | leaf token =>
          cases following
          contradiction
      | group bracket children =>
          by_cases invisible : bracket.delimiter = .invisible
          · have opens := tidy.opensPlain_second after isHead
              (by simp [isInvisible, isGroup, invisible])
            obtain ⟨token, front, begins⟩ := flatten_of_opensPlain _ opens
            rw [begins] at following
            cases following
            contradiction
          · rw [flatten, if_neg invisible] at following
            cases following
            exact ⟨.group bracket children, rest, rfl, isBlock, chain⟩

theorem IsMended.isLoose (mended : post.IsMended) (tidy : post.IsTidy)
    (isMarker : Marker.test post.site.marker post.site.after.head? = true)
    (stuck : post.site.failure?.isSome = true) : post.IsLoose := by
  obtain ⟨found, fit⟩ := (Site.failure?_eq_none_iff _).mp mended.2
  have unfit : ¬ Site.IsFit post.site.after := by
    intro whole
    rw [(Site.failure?_eq_none_iff _).mpr ⟨tidy.hasOperand isMarker found, whole⟩] at stuck
    contradiction
  obtain ⟨bracket, children, rest, dissolved, after, isHead, parsed, follows⟩ :=
    tidy.exists_head isMarker fit
  have isGroup : (Tree.group bracket children).isGroup .paren = true := by
    simp [Tree.isGroup, isHead]
  cases own : Head.ofGroup (.group bracket children) with
  | error failure =>
      refine .head after isGroup own ?_
      rw [Bool.eq_false_iff]
      intro visible
      simp only [isVisible, Bool.and_eq_true] at visible
      rw [flattenAll_of_areVisible children visible.2, own] at parsed
      contradiction
  | ok head =>
      have same : dissolved.construct = head.construct :=
        Head.construct_ofGroup_flatten own parsed
      rw [same] at follows
      have broken : ¬ Body.Follows head.construct rest := fun whole =>
        unfit (Site.isFit_iff.mpr ⟨_, rest, head, after, own, whole⟩)
      have takesBody : head.construct.takesBody = true := by
        refine Decidable.byContradiction fun takesNone => broken fun takes => ?_
        exact absurd takes takesNone
      obtain ⟨block, others, rfl, isBlock, chain⟩ :=
        tidy.exists_block isMarker after isGroup takesBody follows
      have takesElse : head.construct.takesElse = true := by
        refine Decidable.byContradiction fun takesNone => broken fun _ => ?_
        exact ⟨block, others, rfl, isBlock, fun takes => absurd takes takesNone⟩
      cases chained : Body.elseChain others with
      | ok parts => exact absurd (fun _ => ⟨block, others, rfl, isBlock, fun _ => ⟨parts, chained⟩⟩) broken
      | error failure =>
          refine .chain after own takesElse isBlock chained ?_
          cases visible : areVisible others with
          | false => exact .inl rfl
          | true =>
              refine .inr (Decidable.byContradiction fun free => ?_)
              obtain ⟨parts, whole⟩ := chain takesElse
              rw [flattenAll_of_areVisible others visible,
                (dissolved_of_not_isEnclosed (Bool.not_eq_true _ ▸ free)).2, List.append_nil,
                chained] at whole
              contradiction

end Post

/-- Where invisible groups are dissolved, no marker can be resolved unless the dissolving has
mended its occurrence. -/
theorem Tree.stuck_flattenAll_iff (trees : List Tree) :
    (∀ post ∈ posts (flattenAll trees), post.site.failure?.isSome = true) ↔
      ∀ post ∈ posts trees, ¬ post.IsMended := by
  have sites := sites_posts_flattenAll trees
  constructor
  · intro stuck post member mended
    have kept : post.dissolved.bare ∈ (posts (flattenAll trees)).map (·.site.bare) := by
      rw [sites, keptSites]
      exact List.mem_map_of_mem (List.mem_filter.mpr ⟨member, mended.1⟩)
    obtain ⟨other, found, same⟩ := List.mem_map.mp kept
    have fails := stuck other found
    rw [← Site.isSome_failure?_bare, same, Site.isSome_failure?_bare, mended.2] at fails
    contradiction
  · intro broken post member
    have found : post.site.bare ∈ keptSites (posts trees) := by
      rw [← sites]
      exact List.mem_map_of_mem member
    obtain ⟨other, kept, same⟩ := List.mem_map.mp found
    rw [List.mem_filter] at kept
    rw [← Site.isSome_failure?_bare, ← same, Site.isSome_failure?_bare,
      ← Option.ne_none_iff_isSome]
    exact fun mended => broken other kept.1 ⟨kept.2, mended⟩

end Headfirst
