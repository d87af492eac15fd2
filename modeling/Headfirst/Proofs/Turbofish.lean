import Headfirst.Fragment.Source
import Headfirst.Proofs.Again
import Headfirst.Proofs.Fused
import Headfirst.Proofs.Neighbours
import Headfirst.Proofs.Posts
import Headfirst.Proofs.Reach
import Headfirst.Proofs.Standing

namespace Headfirst

open Headfirst.Tree

/-! Paths that go on with generic arguments.

A `::` in front of `<` is part of a path and never a marker, whatever is spliced around it.
But `<<`, `<=` and `<<=` are single tokens, and in front of those it is taken for a marker. -/

namespace Lexeme

/-- Whether a `<` in front of the text begins a longer operator. -/
def lengthensAngle (behind : List Char) : Bool :=
  behind.head?.any fun char => char == '<' || char == '='

variable {behind : List Char}

theorem second_of_angle : ∀ operator ∈ longOperators, operator.toList.head? = some '<' →
    (operator.toList.drop 1).head?.any fun char => char == '<' || char == '=' := by
  decide

theorem punctuation_angle (alone : lengthensAngle behind = false) :
    punctuation ('<' :: behind) = some 1 := by
  have short : longOperators.find? (·.toList.isPrefixOf ('<' :: behind)) = none := by
    refine List.find?_eq_none.mpr fun operator known isPrefix => ?_
    obtain ⟨tail, same⟩ := List.isPrefixOf_iff_prefix.mp isPrefix
    have second := second_of_angle operator known
    have long := two_le_length_longOperators operator known
    match chars : operator.toList with
    | [] | [_] =>
        rw [chars] at long
        contradiction
    | char :: next :: more =>
        rw [chars] at same second
        cases same
        have longer : lengthensAngle (next :: more ++ tail) = true := second rfl
        cases longer.symm.trans alone
  rw [punctuation, short]
  rfl

theorem punctuation_longAngle (longer : lengthensAngle behind = true) :
    ∃ taken, punctuation ('<' :: behind) = some taken ∧ 2 ≤ taken := by
  cases behind with
  | nil => contradiction
  | cons char rest =>
      simp only [lengthensAngle, List.head?_cons, Option.any_some, Bool.or_eq_true,
        beq_iff_eq] at longer
      rcases longer with rfl | rfl
      · exact @punctuation_ge _ "<<" (by decide) rfl
      · exact @punctuation_ge _ "<=" (by decide) rfl

theorem reads_angle {kind : TokenKind} {further : Nat}
    (read : first ('<' :: behind) = some (kind, further + 1)) :
    kind = .punct ∧ (further = 0 ↔ lengthensAngle behind = false) := by
  cases longer : lengthensAngle behind with
  | false =>
      have single := reads_iff.mp (reads_punctuation (punctuation_angle longer))
      rw [read] at single
      cases single
      simp
  | true =>
      obtain ⟨taken, matched, least⟩ := punctuation_longAngle longer
      have long := reads_iff.mp (reads_punctuation matched)
      rw [read] at long
      cases long
      simp only [Bool.true_eq_false, iff_false, true_and]
      omega

end Lexeme

/-! Two tokens side by side. -/

section

variable {token next : Token}

theorem eq_leaf_of_face {tree : Tree} (same : tree.face = (leaf token).face) :
    ∃ other, tree = .leaf other ∧ other.bare = token.bare := by
  cases tree with
  | leaf other =>
      refine ⟨other, rfl, ?_⟩
      simpa using same
  | group bracket children => contradiction

/-- Two tokens side by side, of which the second is no `::`, are parted by no splice that does
not begin its operand between them. -/
theorem lasting_looks (noPath : next.isPunct "::" = false) :
    Lasting (Looks (.leaf token) (.leaf next)) where
  bare first second := by simp [Looks]
  first := by
    intro bracket old new second _ met
    obtain ⟨other, same, -⟩ := eq_leaf_of_face met.1
    contradiction
  second := by
    intro first bracket old new met
    obtain ⟨other, same, -⟩ := eq_leaf_of_face met.2
    contradiction
  passable := by
    intro bracket trees second met
    obtain ⟨other, same, -⟩ := eq_leaf_of_face met.1
    contradiction
  noMarker := by
    intro first second met
    rw [← isPunct_face, met.2, isPunct_face]
    exact noPath
  noHead := by
    intro first second met _
    obtain ⟨other, rfl, -⟩ := eq_leaf_of_face met.2
    rfl
  noConstruct := by
    intro first second met
    obtain ⟨other, rfl, -⟩ := eq_leaf_of_face met.1
    exact ⟨rfl, rfl⟩

theorem dissolves_looks :
    Dissolves (Looks (.leaf token) (.leaf next)) [(leaf token).face, (leaf next).face] := by
  intro first second met after
  obtain ⟨left, rfl, same⟩ := eq_leaf_of_face met.1
  obtain ⟨right, rfl, sameNext⟩ := eq_leaf_of_face met.2
  exact ⟨[], [.leaf left, .leaf right], flattenAll after, rfl, by simp [same, sameNext]⟩

theorem test_of_looks {first second : Tree} (met : Looks (.leaf token) (.leaf next) first second) :
    Marker.test first (some second) = Marker.test (.leaf token) (some (.leaf next)) := by
  rw [← test_face first, ← test_face (.leaf token), Option.map_some, Option.map_some, met.1, met.2]

end

/-- In front of a token that begins with `<` stands a marker exactly if the token is longer. -/
theorem test_angle {token next : Token} {behind : List Char} {further : Nat}
    (isPath : token.isPunct "::" = true)
    (read : Lexeme.first ('<' :: behind) = some (next.kind, further + 1))
    (text : next.text = String.ofList (('<' :: behind).take (further + 1))) :
    next.isPunct "::" = false ∧
      Marker.test (.leaf token) (some (.leaf next)) = Lexeme.lengthensAngle behind := by
  obtain ⟨punct, single⟩ := Lexeme.reads_angle read
  have chars : next.text.toList = '<' :: behind.take further := by
    rw [text, String.toList_ofList]
    rfl
  have noText {other : String} (differs : other.toList.head? ≠ some '<') : next.text ≠ other := by
    intro same
    rw [← same, chars] at differs
    exact differs rfl
  have noPath : next.text ≠ "::" := noText (by decide)
  have noGlob : next.text ≠ "*" := noText (by decide)
  have path : Marker.continuesPath (.leaf next) = decide (next.text = "<") := by
    have other : (TokenKind.punct == TokenKind.ident) = false := rfl
    simp [Marker.continuesPath, isAnyIdent, isPunctIn, anyToken, isGroup, punct, noGlob, other]
  have separator : (leaf token).isPunct "::" = true := isPath
  refine ⟨by simp [Token.isPunct, noPath], ?_⟩
  rw [Marker.test, separator, Option.any_some, path]
  cases longer : Lexeme.lengthensAngle behind with
  | false =>
      rw [single.mpr longer] at chars
      have alone : next.text = "<" := String.toList_inj.mp chars
      simp [alone]
  | true =>
      have more : behind.take further ≠ [] := by
        intro none
        rw [List.take_eq_nil_iff, single, longer] at none
        rcases none with short | empty
        · contradiction
        · rw [empty] at longer
          contradiction
      have longText : next.text ≠ "<" := by
        intro same
        rw [same] at chars
        exact more (List.cons_inj_right _ |>.mp chars).symm
      simp [longText]

/-- No marker stands in front of an operand that could reach back to the start. -/
theorem Splice.Whole.test_before {splice : Splice} (whole : splice.Whole) {last : Tree}
    (nearest : splice.occurrence.before.head? = some last) :
    Marker.test last splice.occurrence.operand.head? = false := by
  obtain ⟨-, rest, begins⟩ := Site.resolve_cut whole.resolved
  have behind := whole.settled.drop (Operand.length_le splice.site.before.length splice.site.before)
  rw [← begins] at behind
  rw [rest] at nearest
  cases dropped : splice.site.before.drop
      (Operand.length splice.site.before.length splice.site.before) with
  | nil =>
      rw [dropped] at nearest
      contradiction
  | cons tree others =>
      rw [dropped] at nearest behind
      cases nearest
      have reach := congrArg List.length dropped
      rw [List.length_drop, List.length_cons] at reach
      rw [reach] at behind
      exact behind.1

section

variable {token next : Token} {splice : Splice}

theorem Splice.Due.spares_path (due : splice.Due) (isPath : token.isPunct "::" = true)
    (noMarker : Marker.test (.leaf token) (some (.leaf next)) = false) :
    Site.Spares (Looks (.leaf token) (.leaf next)) splice.occurrence := by
  intro last nearest first begins met
  obtain ⟨-, reach, settled, resolved⟩ := due
  have same := Site.test_before_replacement settled resolved true nearest
  have path : last.isPunct "::" = true := by
    rw [← isPunct_face, met.1, isPunct_face]
    exact isPath
  have invisible : (splice.occurrence.replacement true).isInvisible = true := rfl
  rw [Marker.test_of_isInvisible invisible, path, begins, test_of_looks met, noMarker] at same
  contradiction

theorem Splice.Whole.spares_marker (whole : splice.Whole)
    (isMarker : Marker.test (.leaf token) (some (.leaf next)) = true) :
    Site.Spares (Looks (.leaf token) (.leaf next)) splice.occurrence := by
  intro last nearest first begins met
  have noMarker := whole.test_before nearest
  rw [begins, test_of_looks met, isMarker] at noMarker
  contradiction

theorem markersAll_ne_zero_of_joinsAll {trees : List Tree}
    (isMarker : Marker.test (.leaf token) (some (.leaf next)) = true)
    (joins : JoinsAll (Looks (.leaf token) (.leaf next)) trees) : markersAll trees ≠ 0 := by
  obtain ⟨frames, before, first, second, after, same, met⟩ := exists_fill_joinsAll trees joins []
  have here : Marker.test first (second :: after).head? = true := (test_of_looks met).trans isMarker
  rw [← List.nil_append trees, same, Frame.markersAll_fill, markersAll_append, markersAll_cons,
    here, Bool.toNat_true]
  omega

end

namespace Fragment

/-- What the source goes on with behind a token and the trivia after it. -/
def textBehind (source : String) (token : Token) : List Char :=
  source.toList.drop (ahead source.toList (token.loc.offset.toNat + token.text.length))

/-- A `::` among its siblings, where the source goes on with `<` and then with `behind`. -/
structure AngleAt (source : String) (fragment : Fragment) (frames : List Frame)
    (left : List Tree) (token : Token) (right : List Tree) (behind : List Char) : Prop where
  place : fragment.children = Frame.fill frames (left ++ .leaf token :: right)
  isPath : token.isPunct "::" = true
  angle : textBehind source token = '<' :: behind

section

variable {source file : String} {fragment : Fragment} {frames : List Frame}
  {left right : List Tree} {token : Token} {behind : List Char}

/-- The token that the `<` begins is the next sibling. -/
theorem AngleAt.exists_next (angleAt : AngleAt source fragment frames left token right behind)
    (done : read source file = .ok fragment) :
    token.text.toList <+: source.toList.drop token.loc.offset.toNat ∧
    ∃ next others, right = .leaf next :: others ∧ next.isPunct "::" = false ∧
      Marker.test (.leaf token) (some (.leaf next)) = Lexeme.lengthensAngle behind := by
  obtain ⟨place, isPath, angle⟩ := angleAt
  obtain ⟨stop, whole, ends⟩ := stands_of_read done
  rw [place] at whole
  obtain ⟨start, stop, around, ends⟩ := whole.innermost ends
  obtain ⟨middle, here⟩ := around.behind
  obtain ⟨offset, placed, stands, later⟩ := here.after_token
  rw [textBehind, placed, Int.toNat_natCast] at angle
  obtain ⟨next, others, further, rfl, read, text⟩ := later.begins ends angle rfl rfl
  obtain ⟨noPath, test⟩ := test_angle isPath read text
  rw [placed, Int.toNat_natCast, stands]
  exact ⟨List.prefix_append .., next, others, rfl, noPath, test⟩

/-- The two tokens stand side by side until an operand begins between them. -/
theorem AngleAt.joins {next : Token} {others : List Tree} {parenthesize : Bool}
    {splices : List Splice} {final : List Tree}
    (angleAt : AngleAt source fragment frames left token (.leaf next :: others) behind)
    (noPath : next.isPunct "::" = false)
    (trace : Trace parenthesize fragment.children splices final)
    (spares : ∀ splice ∈ splices,
      Site.Spares (Looks (.leaf token) (.leaf next)) splice.occurrence) :
    JoinsAll (Looks (.leaf token) (.leaf next)) final := by
  refine trace.joinsAll_final (lasting_looks noPath) spares ?_
  rw [angleAt.place]
  apply Frame.joinsAll_fill
  exact joinsAll_append.mpr (.inr (.inr (joinsAll_cons.mpr (.inl ⟨_, rfl, rfl, rfl⟩))))

end

/-- A fragment without markers is its own result. -/
theorem front_unmarked {source file : String} {fragment : Fragment} {settings : Settings}
    (done : read source file = .ok fragment) (unmarked : markersAll fragment.children = 0)
    (shallow : fragment.tree.depth ≤ Fronting.maxDepth) (room : 0 < settings.maxPasses) :
    (fragment.front settings).result = .ok fragment ∧ (fragment.front settings).splices = 0 ∧
      (fragment.front settings).tolerated = [] := by
  obtain ⟨result, -, splices, tolerated⟩ := @front_still settings fragment shallow room unmarked
  have same : settle settings fragment.children = fragment.children := by
    have visible := flattenAll_of_areVisible _ (areVisible_of_read done)
    rcases settle_cases settings fragment.children with kept | dissolved
    · exact kept
    · rw [dissolved, visible]
  rw [same] at result
  exact ⟨result, splices, tolerated⟩

/-- In front of a `<` of the source that is a token of its own, a `::` is never a marker: not
where it is read, nor in any working tree, and it stays in front of the `<`.  In front of `<<`,
`<=` and `<<=` it is a marker, and no strict run succeeds.  A source all of whose `::` stand in
front of such a `<` is left as it is. -/
theorem front_keeps_paths {source file : String} {fragment : Fragment}
    (done : read source file = .ok fragment) :
    (∀ frames left token right behind,
      AngleAt source fragment frames left token right behind →
      token.text.toList <+: source.toList.drop token.loc.offset.toNat ∧
      ∃ next others, right = .leaf next :: others ∧
      let siblings := left ++ .leaf token :: right
      let longer := Lexeme.lengthensAngle behind
      Marker.isAt siblings left.length = longer ∧
      (left.length ∈ Marker.indices siblings 0 ↔ longer = true) ∧
      (∀ start, Marker.find? siblings start = some left.length → longer = true) ∧
      markersAll siblings =
        markersBefore (some (.leaf token)) left + longer.toNat + markersAll right ∧
      (longer = false →
        (∀ parenthesize splices final, Trace parenthesize fragment.children splices final →
          Shows [(Tree.leaf token).face, (Tree.leaf next).face] final) ∧
        ∀ settings result, (fragment.front settings).result = .ok result →
          Shows [(Tree.leaf token).face, (Tree.leaf next).face] result.children) ∧
      (longer = true → ∀ settings : Settings, settings.tolerant = false →
        ∀ result, (fragment.front settings).result ≠ .ok result)) ∧
    ((∀ frames left token right,
      fragment.children = Frame.fill frames (left ++ .leaf token :: right) →
      token.isPunct "::" = true →
      ∃ behind, AngleAt source fragment frames left token right behind ∧
        Lexeme.lengthensAngle behind = false) →
      ∀ settings : Settings, fragment.tree.depth ≤ Fronting.maxDepth → 0 < settings.maxPasses →
        (fragment.front settings).result = .ok fragment ∧
          (fragment.front settings).splices = 0 ∧ (fragment.front settings).tolerated = []) := by
  constructor
  · intro frames left token right behind angleAt
    obtain ⟨stands, next, others, rfl, noPath, test⟩ := angleAt.exists_next done
    refine ⟨stands, next, others, rfl, ?_⟩
    intro siblings longer
    have isAt : Marker.isAt siblings left.length = longer := by
      simp [siblings, Marker.isAt, test, longer]
    refine ⟨isAt, ?_, ?_, ?_, ?_, ?_⟩
    · simp [Marker.indices, isAt, siblings]
    · intro start found
      rw [← isAt]
      exact List.find?_some found
    · have leaf : (Tree.leaf token).markers = 0 := rfl
      rw [markersAll_append, markersAll_cons, List.head?_cons, List.head?_cons, test, leaf,
        Nat.add_zero, Nat.add_assoc]
    · intro alone
      have noMarker := test.trans alone
      have stays : ∀ {parenthesize splices final},
          Trace parenthesize fragment.children splices final →
            JoinsAll (Looks (.leaf token) (.leaf next)) final :=
        fun trace => angleAt.joins noPath trace fun splice member =>
          (trace.due splice member).spares_path angleAt.isPath noMarker
      refine ⟨fun _ _ _ trace => shows_of_joinsAll (stays trace), ?_⟩
      intro settings result succeeded
      obtain ⟨rounds, middle, last, final, course, -, finished⟩ := front_course settings fragment
      obtain ⟨-, rfl, -⟩ := finished result succeeded
      rcases settle_cases settings final with kept | dissolved
      · rw [kept]
        exact shows_of_joinsAll (stays course.trace)
      · rw [dissolved]
        exact dissolves_looks.shows (stays course.trace)
    · intro lengthens settings strict result succeeded
      obtain ⟨splices, final, trace, whole, -, -, unmarked⟩ := front_unbounded strict succeeded
      have isMarker := test.trans lengthens
      have stays := angleAt.joins noPath trace fun splice member =>
        (whole splice member).spares_marker isMarker
      exact markersAll_ne_zero_of_joinsAll isMarker stays unmarked
  · intro paths settings shallow room
    refine front_unmarked done ?_ shallow room
    cases found : posts fragment.children with
    | nil => rw [← length_posts, found, List.length_nil]
    | cons post others =>
        have member : post ∈ posts fragment.children := by simp [found]
        obtain ⟨place, isMarker⟩ := postsAll_inPlace [] [] fragment.children post member
        obtain ⟨token, isLeaf, isPath⟩ := Marker.eq_leaf_of_test isMarker
        obtain ⟨behind, angleAt, alone⟩ := paths post.frames post.site.before.reverse token
          post.site.after (by rw [← isLeaf]; exact place.symm) isPath
        obtain ⟨-, next, others, after, -, test⟩ := angleAt.exists_next done
        rw [isLeaf, after, List.head?_cons, test, alone] at isMarker
        contradiction

theorem exists_angleAt {source file : String} {behind : List Char}
    (checked : (read source file).toOption.any fun fragment =>
      match fragment.children with
      | _ :: .leaf token :: _ => token.isPunct "::" && textBehind source token == '<' :: behind
      | _ => false) :
    ∃ fragment first token right, read source file = .ok fragment ∧
      AngleAt source fragment [] [first] token right behind := by
  obtain ⟨fragment, done, checked⟩ := exists_ok_of_any checked
  split at checked
  · rename_i first token right children
    simp only [Bool.and_eq_true, beq_iff_eq] at checked
    exact ⟨fragment, first, token, right, done, children, checked.1, checked.2⟩
  · contradiction

/-- Generic arguments of a path. -/
theorem front_keeps_paths_generic :
    ∃ fragment first token right, read "Vec::<T>::new()" "main.rs" = .ok fragment ∧
      AngleAt "Vec::<T>::new()" fragment [] [first] token right "T>::new()".toList ∧
      Marker.isAt ([first] ++ .leaf token :: right) 1 = false ∧
      ∃ next, ∀ settings result, (fragment.front settings).result = .ok result →
        Shows [(Tree.leaf token).face, (Tree.leaf next).face] result.children := by
  obtain ⟨fragment, first, token, right, done, angleAt⟩ :=
    @exists_angleAt "Vec::<T>::new()" "main.rs" "T>::new()".toList (by decide +kernel)
  obtain ⟨-, next, others, -, isAt, -, -, -, stays, -⟩ :=
    (front_keeps_paths done).1 _ _ _ _ _ angleAt
  exact ⟨fragment, first, token, right, done, angleAt, isAt, next, (stays rfl).2⟩

/-- In front of nested generic arguments, which begin with `<<`, a `::` is taken for a marker. -/
theorem front_keeps_paths_nested :
    ∃ fragment first token right,
      read "Vec::<<T as Tr>::Out>::new()" "main.rs" = .ok fragment ∧
      AngleAt "Vec::<<T as Tr>::Out>::new()" fragment [] [first] token right
        "<T as Tr>::Out>::new()".toList ∧
      Marker.isAt ([first] ++ .leaf token :: right) 1 = true ∧
      ∃ failure, (fragment.front {}).result = .error failure ∧ failure.fault = .noHeadGroup := by
  obtain ⟨fragment, first, token, right, done, angleAt⟩ :=
    @exists_angleAt "Vec::<<T as Tr>::Out>::new()" "main.rs" "<T as Tr>::Out>::new()".toList
      (by decide +kernel)
  obtain ⟨-, next, others, rfl, -, test⟩ := angleAt.exists_next done
  have refused : (read "Vec::<<T as Tr>::Out>::new()" "main.rs").toOption.any fun fragment =>
      match (fragment.front {}).result with
      | .ok _ => false
      | .error failure => failure.fault = .noHeadGroup := by
    decide +kernel
  simp only [done, Except.toOption, Option.any_some] at refused
  split at refused
  · contradiction
  · rename_i failure failed
    exact ⟨fragment, first, token, _, done, angleAt, test, failure, failed,
      of_decide_eq_true refused⟩

end Fragment

end Headfirst
