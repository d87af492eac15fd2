import Headfirst.Proofs.Again
import Headfirst.Proofs.Locating
import Headfirst.Proofs.Rereading

namespace Headfirst

open Headfirst.Tree Headfirst.Fronting

/-! Groups without brackets leave no seam.

Whether they stay in the result or are dissolved, the text of the result is the same: a group
hands its trivia to its first tree, and between trivia and a word printing puts no space. -/

namespace Tree

mutual

/-- A tree in which a group without brackets holds something and ends with no trivia of its own,
so that nothing is lost when it is dissolved. -/
def Filled : Tree → Prop
  | leaf _ => True
  | group bracket children =>
      (bracket.delimiter = .invisible → bracket.closeLeading = "" ∧ children ≠ []) ∧
        FilledAll children

def FilledAll : List Tree → Prop
  | [] => True
  | tree :: trees => tree.Filled ∧ FilledAll trees

end

variable {tree : Tree} {trees left right : List Tree} {leading : String}

@[simp] theorem filledAll_nil : FilledAll [] := trivial

@[simp] theorem filledAll_cons : FilledAll (tree :: trees) ↔ tree.Filled ∧ FilledAll trees :=
  .rfl

@[simp] theorem filledAll_append :
    FilledAll (left ++ right) ↔ FilledAll left ∧ FilledAll right := by
  induction left with
  | nil => simp
  | cons tree trees ih => simp [ih, and_assoc]

@[simp] theorem filled_bare : tree.bare.Filled ↔ tree.Filled := by
  cases tree <;> rfl

theorem filledAll_iff_forall : FilledAll trees ↔ ∀ tree ∈ trees, tree.Filled := by
  induction trees with
  | nil => simp
  | cons tree trees ih => simp [ih]

/-- Trivia in front of trees fills no group and empties none. -/
theorem filledAll_of_bare {others : List Tree} (same : trees.map bare = others.map bare)
    (filled : FilledAll others) : FilledAll trees := by
  rw [filledAll_iff_forall] at filled ⊢
  exact forall_of_bare (fun _ => filled_bare) same filled

mutual

theorem filled_of_isVisible : ∀ tree : Tree, tree.isVisible = true → tree.Filled
  | leaf _, _ => trivial
  | group bracket children, visible => by
      simp only [isVisible, Bool.and_eq_true, bne_iff_ne] at visible
      exact ⟨fun invisible => absurd invisible visible.1,
        filledAll_of_areVisible children visible.2⟩

theorem filledAll_of_areVisible : ∀ trees : List Tree, areVisible trees = true → FilledAll trees
  | [], _ => trivial
  | tree :: trees, visible => by
      simp only [areVisible, Bool.and_eq_true] at visible
      exact ⟨filled_of_isVisible tree visible.1, filledAll_of_areVisible trees visible.2⟩

end

end Tree

/-! A splice. -/

namespace Replacement

variable {operand body : List Tree} {head : Head}

theorem filled_wrapped (parenthesize : Bool) (nonempty : operand ≠ [])
    (filled : FilledAll operand) : (wrapped parenthesize operand).Filled := by
  have bare := filledAll_of_bare (bare_bareOperand operand) filled
  have some : bareOperand operand ≠ [] := by
    cases operand with
    | nil => contradiction
    | cons tree trees => simp [bareOperand]
  unfold wrapped
  simp only
  split
  · exact ⟨fun invisible => (by cases invisible), bare⟩
  · split
    · rename_i single
      rw [single] at bare
      exact bare.1
    · exact ⟨fun _ => ⟨rfl, some⟩, bare⟩

theorem filled_make (parenthesize : Bool) (nonempty : operand ≠ []) (filled : FilledAll operand)
    (filledHead : FilledAll head.trees) (filledBody : FilledAll body) :
    (make parenthesize operand head body).Filled := by
  have inside : FilledAll (head.trees ++ wrapped parenthesize operand :: body) := by
    rw [filledAll_append]
    exact ⟨filledHead, filled_wrapped parenthesize nonempty filled, filledBody⟩
  refine ⟨fun _ => ⟨rfl, fun empty => ?_⟩, filledAll_of_bare (bare_spaced _) inside⟩
  have none := congrArg List.length
    (bare_spaced (head.trees ++ wrapped parenthesize operand :: body))
  rw [empty] at none
  simp at none

end Replacement

theorem Site.filledAll_spliced {site : Site} {reach : Nat} {occurrence : Occurrence}
    (resolved : site.resolve reach = .ok occurrence) (parenthesize : Bool)
    (filled : FilledAll site.trees) : FilledAll (Site.spliced occurrence parenthesize) := by
  obtain ⟨group, parsed, nonempty, before, after⟩ := Site.resolve_parts resolved
  obtain ⟨bracket, rfl⟩ := Head.eq_group parsed
  rw [Site.trees, before, after] at filled
  simp only [filledAll_append, filledAll_cons] at filled
  obtain ⟨⟨before, operand⟩, -, ⟨-, head⟩, body, after⟩ := filled
  rw [Site.spliced, filledAll_append]
  exact ⟨before, Replacement.filled_make parenthesize nonempty operand head body, after⟩

theorem kept_filledAll (parenthesize : Bool) : Splice.Kept parenthesize FilledAll where
  within {before bracket trees after} _ filled := by
    simp only [filledAll_append, filledAll_cons] at filled ⊢
    obtain ⟨before, ⟨edges, inside⟩, after⟩ := filled
    refine ⟨inside, fun others some other => ⟨before, ⟨fun invisible => ?_, other⟩, after⟩⟩
    exact ⟨(edges invisible).1, some⟩
  spliced resolved filled := Site.filledAll_spliced resolved parenthesize filled

/-! Printing. -/

namespace Trivia

/-- Trivia that something stands behind ends with a blank or with the end of a comment. -/
theorem last_of_token {text : List Char} {char : Char} {rest : List Char}
    (found : text.drop (length text) = char :: rest) :
    ∀ last ∈ (text.take (length text)).getLast?, Text.isBlank last ∨ last = '/' := by
  fun_induction length text with
  | case1 => cases found
  | case2 head tail further isItem ih =>
      obtain ⟨front, behind, same, taken, item⟩ := exists_item isItem
      change further + 1 = front.length at taken
      have left : tail.drop further = behind := by
        rw [← @List.drop_succ_cons _ head, taken, same, List.drop_left]
      rw [left] at ih found ⊢
      rw [taken, same, List.take_length_add_append]
      rw [taken, same, List.drop_length_add_append] at found
      intro last member
      rw [List.getLast?_append, Option.mem_def, Option.or_eq_some_iff] at member
      rcases member with later | ⟨nothing, here⟩
      · exact ih found last later
      · cases item with
        | blank blank =>
            cases here
            exact .inl blank
        | block =>
            rw [List.getLast?_append] at here
            cases here
            exact .inr rfl
        | line inside stops =>
            -- The line feed behind the comment is trivia too.
            cases behind with
            | nil => simp at found
            | cons feed more =>
                cases stops feed rfl
                have blank : item ('\n' :: more) = some (0 + 1) := item_blank (by decide)
                simp [length_item blank, Nat.add_comm 1] at nothing
  | case3 => simp

theorem Complete.quiet {gap : List Char} (complete : Complete gap) :
    ∀ last ∈ gap.getLast?, ¬Tree.isWordy last := by
  have noTrivia : length ['a'] = 0 := length_noItem (by decide)
  have whole := complete ['a']
  rw [noTrivia, Nat.add_zero] at whole
  have ends := @last_of_token (gap ++ ['a']) 'a' [] (by rw [whole, List.drop_left])
  rw [whole, List.take_left] at ends
  intro last member
  rcases ends last member with blank | rfl
  · exact not_isWordy_of_isBlank blank
  · decide

end Trivia

namespace Tree

/-- Pieces that are printed alike, whatever stands in front of them and behind them. -/
def PrintsLike (left right : List Piece) : Prop :=
  ∀ (last : Option Char) (more : List Piece),
    joined last (left ++ more) = joined last (right ++ more)

theorem joined_append (last : Option Char) (left right : List Piece) :
    joined last (left ++ right) = joined last left ++ joined (lastOf last left) right := by
  induction left generalizing last with
  | nil => rfl
  | cons piece pieces ih => simp [joined, lastOf, ih]

namespace PrintsLike

variable {left middle right before behind : List Piece}

theorem refl (pieces : List Piece) : PrintsLike pieces pieces :=
  fun _ _ => rfl

theorem trans (first : PrintsLike left middle) (second : PrintsLike middle right) :
    PrintsLike left right :=
  fun last more => (first last more).trans (second last more)

theorem append (first : PrintsLike left right) (second : PrintsLike before behind) :
    PrintsLike (left ++ before) (right ++ behind) := by
  intro last more
  calc joined last (left ++ before ++ more)
    _ = joined last (right ++ (before ++ more)) := by rw [List.append_assoc, first]
    _ = joined last right ++ joined (lastOf last right) (behind ++ more) := by
      rw [joined_append, second]
    _ = joined last (right ++ behind ++ more) := by rw [← joined_append, List.append_assoc]

/-- A closing mark without trivia and text. -/
theorem blank : PrintsLike [⟨"", ""⟩] [] := by
  intro last more
  simp [joined, written]

end PrintsLike

theorem exists_pieces (tree : Tree) : ∃ text pieces, ∀ leading,
    (tree.withLeading leading).pieces = ⟨leading, text⟩ :: pieces := by
  cases tree with
  | leaf token => exact ⟨_, _, fun _ => rfl⟩
  | group bracket children =>
      exact ⟨bracket.delimiter.opening, piecesAll children ++
        [⟨bracket.closeLeading, bracket.delimiter.closing⟩], fun _ => rfl⟩

/-- Trivia may be printed on its own, in front of what comes with trivia or without. -/
theorem printsLike_handed {leading own text : String} (pieces : List Piece)
    (quiet : ∀ last ∈ leading.toList.getLast?, ¬isWordy last) :
    PrintsLike (⟨leading, ""⟩ :: ⟨own, text⟩ :: pieces) (⟨leading ++ own, text⟩ :: pieces) := by
  intro last more
  have alone : written last ⟨leading, ""⟩ = leading.toList := by simp [written]
  have together : written last ⟨leading ++ own, text⟩ =
      leading.toList ++ written (leading.toList.getLast?.or last) ⟨own, text⟩ := by
    cases ends : leading.toList.getLast? with
    | none =>
        have empty : leading = "" := String.toList_eq_nil_iff.mp (List.getLast?_eq_none_iff.mp ends)
        simp [empty]
    | some char =>
        have calm : isWordy char = false := by simpa using quiet char ends
        have some : (leading ++ own).isEmpty = false := by
          refine Bool.eq_false_iff.mpr fun empty => ?_
          have nothing := congrArg String.toList (String.isEmpty_iff.mp empty)
          rw [String.toList_append] at nothing
          rw [(List.append_eq_nil_iff.mp nothing).1] at ends
          cases ends
        simp [written, calm, some]
  simp only [List.cons_append, joined, alone, together, List.getLast?_append, Option.or_assoc,
    List.append_assoc]

theorem printsLike_prepend {leading : String} {trees : List Tree} (some : trees ≠ [])
    (quiet : ∀ last ∈ leading.toList.getLast?, ¬isWordy last) :
    PrintsLike (⟨leading, ""⟩ :: piecesAll trees) (piecesAll (prepend leading trees)) := by
  cases trees with
  | nil => contradiction
  | cons tree trees =>
      obtain ⟨text, pieces, shape⟩ := exists_pieces tree
      have own := shape tree.leading
      rw [withLeading_leading] at own
      rw [prepend, piecesAll, piecesAll, own, shape]
      exact printsLike_handed _ quiet

mutual

theorem flatten_ne_nil : ∀ tree : Tree, tree.Filled → tree.flatten ≠ []
  | leaf _, _ => by simp [flatten]
  | group bracket children, filled => by
      rw [flatten]
      split
      · rename_i invisible
        have some := flattenAll_ne_nil children filled.2 (filled.1 invisible).2
        cases flattened : flattenAll children with
        | nil => contradiction
        | cons tree trees => simp [prepend]
      · simp

theorem flattenAll_ne_nil : ∀ trees : List Tree, FilledAll trees → trees ≠ [] →
    flattenAll trees ≠ []
  | [], _, nonempty => absurd rfl nonempty
  | tree :: trees, filled, _ => by
      rw [flattenAll]
      intro none
      exact flatten_ne_nil tree filled.1 (List.append_eq_nil_iff.mp none).1

end

mutual

theorem printsLike_flatten : ∀ tree : Tree, tree.Legible → tree.Filled →
    PrintsLike tree.pieces (piecesAll tree.flatten)
  | leaf token, _, _ => .refl _
  | group bracket children, legible, filled => by
      have inside := printsLike_flattenAll children legible.2.2 filled.2
      rw [flatten]
      split
      · rename_i invisible
        obtain ⟨ended, some⟩ := filled.1 invisible
        have handed := printsLike_prepend (flattenAll_ne_nil children filled.2 some)
          legible.1.quiet
        rw [pieces, invisible, ended]
        have opened := (PrintsLike.refl [⟨bracket.leading, ""⟩]).append inside
        exact (opened.append .blank).trans (by rw [List.append_nil]; exact handed)
      · rw [piecesAll, pieces, piecesAll, List.append_nil, pieces]
        exact ((PrintsLike.refl [_]).append inside).append (.refl _)

theorem printsLike_flattenAll : ∀ trees : List Tree, LegibleAll trees → FilledAll trees →
    PrintsLike (piecesAll trees) (piecesAll (flattenAll trees))
  | [], _, _ => .refl _
  | tree :: trees, legible, filled => by
      rw [piecesAll, flattenAll, piecesAll_append]
      exact (printsLike_flatten tree legible.1 filled.1).append
        (printsLike_flattenAll trees legible.2 filled.2)

end

end Tree

/-! A run takes the same course whether groups are kept or dissolved in the end. -/

/-- The settings with groups without brackets kept in the result, or dissolved. -/
def Settings.keeping (settings : Settings) (keep : Bool) : Settings :=
  { settings with keepGroups := keep }

namespace Fronting

variable (settings : Settings) (keep : Bool)

theorem siblings_keeping (floor : Nat) (before rest : List Tree) (progress : Progress) :
    siblings (settings.keeping keep) floor before rest progress =
      siblings settings floor before rest progress := by
  fun_induction siblings settings floor before rest progress with
  | case1 => exact siblings_nil
  | case2 floor before tree after progress isMarker site reach recorded failure failed tolerant
      ih =>
      rw [← ih]
      exact siblings_leave tolerant isMarker failed
  | case3 floor before tree after progress isMarker site reach recorded failure failed strict =>
      exact siblings_stop (by simpa [Settings.keeping] using strict) isMarker failed
  | case4 floor before tree after progress isMarker site reach recorded occurrence resolved counted
      spent =>
      exact siblings_exceed isMarker resolved spent
  | case5 floor before tree after progress isMarker site reach recorded occurrence resolved counted
      room replacement ih =>
      rw [← ih]
      exact siblings_splice isMarker resolved (Int.not_lt.mp room)
  | case6 floor before tree after progress noMarker ih =>
      rw [← ih]
      exact siblings_skip (by simpa using noMarker)

theorem pass_keeping :
    (∀ trees progress, sequence (settings.keeping keep) trees progress =
      sequence settings trees progress) ∧
    ∀ trees progress, below (settings.keeping keep) trees progress =
      below settings trees progress := by
  refine pass_induction ?scan ?nil ?leaf ?group
  case scan =>
    intro trees same progress
    rw [sequence_eq, sequence_eq, siblings_keeping]
    cases scanned : siblings settings 0 [] trees progress with
    | stopped failure after => rfl
    | done result after =>
        have size := sizeAll_siblings_start scanned
        exact same result size after
  case nil =>
    intro progress
    rw [below_nil, below_nil]
  case leaf =>
    intro token trees same progress
    rw [below_leaf, below_leaf, same]
  case group =>
    intro bracket children trees inside same progress
    rw [below_group, below_group, inside]
    congr 1
    funext inner between
    rw [same]

theorem fixpoint_keeping (span : Span) (pass markers : Nat) (trees : List Tree)
    (progress : Progress) :
    fixpoint (settings.keeping keep) span pass markers trees progress =
      fixpoint settings span pass markers trees progress := by
  have passes := (pass_keeping settings keep).1
  fun_induction fixpoint settings span pass markers trees progress with
  | case1 pass markers trees progress spent => exact fixpoint_spent _ spent
  | case2 pass markers trees progress room failure after stopped =>
      rw [fixpoint_eq (settings.keeping keep) room, passes, stopped]
      rfl
  | case3 pass markers trees progress room result between made splices recorded none =>
      rw [fixpoint_eq (settings.keeping keep) room, passes, made]
      exact if_pos none
  | case4 pass markers trees progress room result between made splices recorded remaining some
      drifted =>
      rw [fixpoint_eq (settings.keeping keep) room, passes, made]
      simp only [Outcome.bind]
      rw [if_neg some, if_pos drifted]
  | case5 pass markers trees progress room result between made splices recorded remaining some
      exact none =>
      rw [fixpoint_eq (settings.keeping keep) room, passes, made]
      simp only [Outcome.bind]
      rw [if_neg some, if_neg exact, if_pos none]
  | case6 pass markers trees progress room result between made splices recorded remaining some
      exact more ih =>
      rw [fixpoint_eq (settings.keeping keep) room, passes, made]
      simp only [Outcome.bind]
      rw [if_neg some, if_neg exact, if_neg more]
      exact ih

end Fronting

namespace Fragment

/-- The trees after the last pass of a run that succeeds, before groups are dissolved. -/
theorem result_keeping (settings : Settings) (keep : Bool) (fragment : Fragment) :
    (∃ failure, (fragment.front settings).result = .error failure ∧
      (fragment.front (settings.keeping keep)).result = .error failure) ∨
    ∃ final splices, Trace settings.parenthesize fragment.children splices final ∧
      (fragment.front settings).result =
        .ok { fragment with children := settle settings final } ∧
      (fragment.front (settings.keeping keep)).result =
        .ok { fragment with children := settle (settings.keeping keep) final } := by
  by_cases deep : maxDepth < fragment.tree.depth
  · exact .inl ⟨_, by rw [front_tooDeep deep, result_stopped],
      by rw [front_tooDeep deep, result_stopped]⟩
  · have shallow := Nat.not_lt.mp deep
    have same := fixpoint_keeping settings keep fragment.tree.span 0
      (markersAll fragment.children) fragment.children fragment.begun
    cases loop : fixpoint settings fragment.tree.span 0 (markersAll fragment.children)
        fragment.children fragment.begun with
    | stopped failure after =>
        rw [loop] at same
        exact .inl ⟨failure, by rw [front_of_stopped shallow loop, result_stopped],
          by rw [front_of_stopped shallow same, result_stopped]⟩
    | done value after =>
        rw [loop] at same
        have completes := fixpoint_completes settings fragment.tree.span 0 fragment.children
          fragment.begun
        rw [loop] at completes
        obtain ⟨rounds, passes, -⟩ := completes
        exact .inr ⟨value.1, _, passes.trace, by rw [front_of_done shallow loop],
          by rw [front_of_done shallow same]⟩

theorem render_settle {fragment : Fragment} {final : List Tree}
    (invisible : fragment.bracket.delimiter = .invisible) (legible : LegibleAll final)
    (filled : FilledAll final) (settings : Settings) :
    (Fragment.tree { fragment with children := settle settings final }).render =
      (Fragment.tree { fragment with children := final }).render := by
  rcases settle_cases settings final with kept | dissolved
  · rw [kept]
  · rw [dissolved, ← String.toList_inj,
      @toList_render { fragment with children := flattenAll final } invisible,
      @toList_render { fragment with children := final } invisible]
    exact (printsLike_flattenAll final legible filled none _).symm

/-- The text of a result does not tell whether groups without brackets have been kept in it. -/
theorem frontSource_keeping (settings : Settings) (keep : Bool) (source file : String) :
    frontSource (settings.keeping keep) source file = frontSource settings source file := by
  rw [frontSource, frontSource]
  cases found : read source file with
  | error failure => rfl
  | ok fragment =>
      rcases result_keeping settings keep fragment with
        ⟨failure, failed, alike⟩ | ⟨final, splices, trace, ran, kept⟩
      · simp only [failed, alike]
      · have legible := (kept_legibleAll _).trace trace (legibleAll_of_read found)
        have filled := (kept_filledAll _).trace trace
          (filledAll_of_areVisible _ (areVisible_of_read found))
        have invisible : fragment.bracket.delimiter = .invisible := by rw [(scan_of_read found).2]
        simp only [ran, kept, render_settle invisible legible filled]

/-- The trees do tell. -/
example :
    (read "a.b::(&)" "main.rs").toOption.any (fun fragment =>
      (fragment.front (.keeping {} true)).result.toOption.any (·.children.any Tree.isInvisible) &&
        (fragment.front (.keeping {} false)).result.toOption.any
          (·.children.all (!·.isInvisible))) = true := by
  decide +kernel

end Fragment

end Headfirst
