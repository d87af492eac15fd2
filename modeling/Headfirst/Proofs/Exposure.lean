import Headfirst.Fragment.Source
import Headfirst.Proofs.Again
import Headfirst.Proofs.Neighbours
import Headfirst.Proofs.Reach

namespace Headfirst

open Headfirst.Tree

/-! Operators in front of an operand that the expression goes on behind.

While a run works, the group of a replacement holds the operator and its operand together.  It
is dissolved at the end, and parentheses are only put around a whole operand.  So what follows
a replacement then stands right behind the operand alone. -/

namespace Construct

/-- The constructs that are an operator in front of their operand. -/
def isOperator : Construct → Bool
  | reference | unary | box => true
  | _ => false

theorem allowsLabel_of_isOperator {construct : Construct} (operator : construct.isOperator = true) :
    construct.allowsLabel = false := by
  cases construct <;> first | rfl | contradiction

theorem takesBody_of_isOperator {construct : Construct} (operator : construct.isOperator = true) :
    construct.takesBody = false := by
  cases construct <;> first | rfl | contradiction

end Construct

/-- Whether an expression goes on with a tree: with a field, a method or `?`, with arguments
or with an index. -/
def Tree.goesOn (tree : Tree) : Bool :=
  tree.isPunctIn [".", "?"] || tree.isGroup .paren || tree.isGroup .bracket

/-! The head of an operator. -/

namespace Head

variable {construct : Construct} {label rest : List Tree} {keyword : Token} {head : Head}

theorem construct_of_binding {keywords : List Token} {link : String}
    (parsed : binding { construct, label, keywords } link rest = .ok head) :
    head.construct = construct := by
  unfold binding at parsed
  simp only at parsed
  split at parsed
  · contradiction
  · split at parsed
    · split at parsed
      · contradiction
      · cases parsed
        rfl
    · contradiction
  · contradiction

theorem construct_of_condition {plain withLet : Construct}
    (parsed : condition plain withLet label keyword rest = .ok head) :
    head.construct = plain ∨ head.construct = withLet := by
  unfold condition at parsed
  split at parsed
  · cases parsed
    exact .inl rfl
  · split at parsed
    · exact .inr (construct_of_binding parsed)
    · contradiction
  · contradiction

theorem construct_of_leaving (parsed : leaving label keyword rest = .ok head) :
    head.construct = .breakOut := by
  unfold leaving at parsed
  split at parsed
  · split at parsed
    · obtain ⟨rfl, -⟩ := complete_eq_ok parsed
      rfl
    · contradiction
  · cases parsed
    rfl

theorem length_of_modified {what modifier : String}
    (parsed : modified construct what modifier label keyword rest = .ok head) :
    rest.length ≤ 1 := by
  unfold modified at parsed
  split at parsed
  · split at parsed
    · obtain ⟨-, rfl⟩ := complete_eq_ok parsed
      exact Nat.le_refl 1
    · contradiction
  · obtain ⟨-, rfl⟩ := complete_eq_ok parsed
    exact Nat.zero_le 1

theorem length_of_complete {what : String} {complete' : Head}
    (parsed : complete what complete' rest = .ok head) : rest.length ≤ 1 := by
  obtain ⟨-, rfl⟩ := complete_eq_ok parsed
  exact Nat.zero_le 1

/-- The keyword of an operator is followed by one more at most. -/
theorem length_of_operator (parsed : ofKeyword label keyword rest = .ok head)
    (operator : head.construct.isOperator = true) : rest.length ≤ 1 := by
  unfold ofKeyword at parsed
  simp only at parsed
  split at parsed
  · split at parsed
    case h_8 | h_9 =>
      rcases construct_of_condition parsed with same | same <;>
        · rw [same] at operator
          contradiction
    case h_10 | h_11 =>
      rw [construct_of_binding parsed] at operator
      contradiction
    case h_12 => exact length_of_modified parsed
    case h_13 =>
      rw [construct_of_leaving parsed] at operator
      contradiction
    case h_14 => contradiction
    all_goals exact length_of_complete parsed
  · split at parsed
    · split at parsed
      case h_1 | h_2 => exact length_of_modified parsed
      case h_6 => contradiction
      all_goals exact length_of_complete parsed
    · contradiction

theorem plain_of_ofLabelled (parsed : ofLabelled label rest = .ok head)
    (operator : head.construct.isOperator = true) :
    label = [] ∧ ∀ tree ∈ rest, tree.isPlainToken = true := by
  unfold ofLabelled at parsed
  split at parsed
  · cases parsed
    contradiction
  · rename_i keyword others
    split at parsed
    · contradiction
    · rename_i inner read
      split at parsed
      · rename_i allowed
        cases parsed
        rw [Construct.allowsLabel_of_isOperator operator, Bool.or_false] at allowed
        refine ⟨List.isEmpty_iff.mp allowed, ?_⟩
        have few := length_of_operator read operator
        have plainKeyword := isPlainToken_of_endsHead _ (endsHead_of_ofKeyword read)
        have ends := ends_ofKeyword read
        intro tree member
        rcases List.mem_cons.mp member with rfl | member
        · exact plainKeyword
        · match others, few, member with
          | [last], _, member =>
              cases List.mem_singleton.mp member
              exact isPlainToken_of_endsHead _ (ends _ rfl)
      · contradiction
  · contradiction

/-- The head of an operator is tokens only. -/
theorem plain_of_operator {tree : Tree} (parsed : ofGroup tree = .ok head)
    (operator : head.construct.isOperator = true) :
    ∀ part ∈ head.trees, part.isPlainToken = true := by
  rw [ofGroup_trees parsed]
  unfold ofGroup at parsed
  split at parsed
  · generalize tree.children = children at parsed
    unfold ofTrees at parsed
    split at parsed
    · contradiction
    · split at parsed
      · split at parsed
        · split at parsed
          · have labelled := (plain_of_ofLabelled parsed operator).1
            contradiction
          · contradiction
        · contradiction
      · exact (plain_of_ofLabelled parsed operator).2
  · contradiction

end Head

/-! An operand never begins right behind a replacement. -/

namespace Operand

theorem isBoundary_of_isGroup {delimiter : Delimiter} {tree : Tree}
    (isGroup : tree.isGroup delimiter = true) : isBoundary tree = false := by
  obtain ⟨bracket, children, rfl, -⟩ := eq_group_of_isGroup isGroup
  rfl

variable {reach : Nat} {before : List Tree} {tree : Tree}

/-- In front of an operand that could reach back to the start stands an invisible group only
if the operand begins with one. -/
theorem invisible_of_extent {next : Tree} (whole : before.length ≤ reach)
    (stop : (before.drop (extent reach before next)).head? = some tree)
    (invisible : tree.isInvisible = true) :
    ∀ first ∈ (before.take (extent reach before next)).getLast?.or (some next),
      first.isInvisible = true := by
  fun_induction extent reach before next with
  | case1 before next =>
      have empty : before = [] := List.eq_nil_of_length_eq_zero (Nat.le_zero.mp whole)
      rw [empty] at stop
      contradiction
  | case2 => contradiction
  | case3 reach nearest before next stops =>
      cases stop
      have noBrace : tree.isGroup .brace = false := isGroup_eq_false invisible (by decide)
      rw [isBoundary_of_isGroup invisible, closesBlockStatement, noBrace] at stops
      contradiction
  | case4 reach nearest before next goesOn invisibleNearest =>
      intro first begins
      cases begins
      exact invisibleNearest
  | case5 reach nearest before next goesOn visible ih =>
      rw [getLast?_take_cons]
      exact ih (Nat.le_of_succ_le_succ whole) (by simpa using stop)

theorem invisible_of_length (whole : before.length ≤ reach) {marker : Tree}
    (nonempty : 0 < length reach before)
    (stop : (before.drop (length reach before)).head? = some tree)
    (invisible : tree.isInvisible = true) :
    ∀ first ∈ (before.take (length reach before)).getLast?.or (some marker),
      first.isInvisible = true := by
  unfold length at stop nonempty ⊢
  split at stop
  · simp at nonempty
  · simp at nonempty
  · rename_i reach nearest before
    by_cases boundary : isBoundary nearest = true
    · simp [boundary] at nonempty
    · by_cases invisibleNearest : nearest.isInvisible = true
      · simp only [boundary, invisibleNearest, Bool.false_eq_true, if_false, if_true]
        intro first begins
        cases begins
        exact invisibleNearest
      · simp only [boundary, invisibleNearest, Bool.false_eq_true, if_false] at stop ⊢
        rw [getLast?_take_cons]
        exact invisible_of_extent (Nat.le_of_succ_le_succ whole) (by simpa using stop) invisible

end Operand

/-! A replacement and what follows it. -/

/-- An invisible group that holds trees that look like the given parts, in front of one that
looks like `next`. -/
structure Fronts (parts : List Tree) (next first second : Tree) : Prop where
  invisible : first.isInvisible = true
  holds : first.children.map face = parts.map face
  follows : second.face = next.face

theorem Tree.passable_of_noPaths {trees : List Tree} {next : Option Tree}
    (noPaths : ∀ tree ∈ trees, tree.isPunct "::" = false) : Passable next trees := by
  induction trees with
  | nil => trivial
  | cons tree trees ih =>
      rw [List.forall_mem_cons] at noPaths
      exact ⟨Marker.test_eq_false noPaths.1, ih noPaths.2⟩

theorem Tree.isInvisible_face (tree : Tree) : tree.face.isInvisible = tree.isInvisible :=
  isGroup_face .invisible

theorem Tree.flatten_visible {tree : Tree} (visible : tree.isInvisible = false) :
    ∃ other, tree.flatten = [other] ∧ other.face = tree.face := by
  cases tree with
  | leaf token => exact ⟨_, rfl, rfl⟩
  | group bracket children =>
      have shown : bracket.delimiter ≠ .invisible := by
        simpa [isInvisible, isGroup] using visible
      exact ⟨.group bracket (flattenAll children), by rw [flatten, if_neg shown], rfl⟩

theorem Tree.face_flattenAll {trees : List Tree}
    (visible : ∀ tree ∈ trees, tree.isInvisible = false) :
    (flattenAll trees).map face = trees.map face := by
  induction trees with
  | nil => rfl
  | cons tree trees ih =>
      rw [List.forall_mem_cons] at visible
      obtain ⟨other, same, equal⟩ := flatten_visible visible.1
      rw [flattenAll, same, List.singleton_append, List.map_cons, List.map_cons, equal,
        ih visible.2]

section

variable {parts : List Tree} {next first second : Tree}

theorem Fronts.exists_part (met : Fronts parts next first second) {tree : Tree}
    (member : tree ∈ first.children) : ∃ part ∈ parts, part.face = tree.face := by
  rw [← List.mem_map, ← met.holds]
  exact List.mem_map_of_mem member

theorem lasting_fronts (noPaths : ∀ part ∈ parts, part.isPunct "::" = false)
    (noPath : next.isPunct "::" = false) : Lasting (Fronts parts next) where
  bare first second := by
    have invisible : first.bare.isInvisible = first.isInvisible := isGroup_bare .invisible
    have holds : first.bare.children = first.children := by cases first <;> rfl
    constructor
    · intro met
      exact ⟨invisible ▸ met.invisible, holds ▸ met.holds, face_bare ▸ met.follows⟩
    · intro met
      exact ⟨invisible.trans met.invisible, holds ▸ met.holds, face_bare.trans met.follows⟩
  first := by
    intro bracket old new second same met
    exact ⟨met.invisible, same.symm.trans met.holds, met.follows⟩
  second := by
    intro first bracket old new met
    exact ⟨met.invisible, met.holds, met.follows⟩
  passable := by
    intro bracket trees second met
    apply passable_of_noPaths
    intro tree member
    obtain ⟨part, known, same⟩ := met.exists_part member
    rw [← isPunct_face, ← same, isPunct_face]
    exact noPaths part known
  noMarker := by
    intro first second met
    rw [← isPunct_face, met.follows, isPunct_face]
    exact noPath
  noHead := by
    intro first second met isPath
    rw [isPunct_of_isGroup met.invisible] at isPath
    contradiction
  noConstruct met :=
    ⟨isGroup_eq_false met.invisible (by decide), isGroup_eq_false met.invisible (by decide)⟩

theorem dissolves_fronts (visible : ∀ part ∈ parts, part.isInvisible = false)
    (visibleNext : next.isInvisible = false) :
    Dissolves (Fronts parts next) ((parts ++ [next]).map face) := by
  intro first second met after
  obtain ⟨bracket, children, rfl, invisible⟩ := eq_group_of_isGroup met.invisible
  have visibleSecond : second.isInvisible = false := by
    rw [← isInvisible_face, met.follows, isInvisible_face]
    exact visibleNext
  have visibleChildren : ∀ tree ∈ children, tree.isInvisible = false := by
    intro tree member
    obtain ⟨part, known, same⟩ := met.exists_part member
    rw [← isInvisible_face, ← same, isInvisible_face]
    exact visible part known
  obtain ⟨other, same, equal⟩ := flatten_visible visibleSecond
  refine ⟨[], prepend bracket.leading (flattenAll children) ++ [other], flattenAll after, ?_, ?_⟩
  · rw [flattenAll, flattenAll, flatten, if_pos invisible, same]
    simp
  · rw [List.map_append, face_of_bare (bare_prepend _ _), face_flattenAll visibleChildren,
      show children.map face = parts.map face from met.holds]
    simp [equal, met.follows]

theorem Splice.Whole.spares_fronts {splice : Splice} (whole : splice.Whole)
    (visibleNext : next.isInvisible = false) :
    Site.Spares (Fronts parts next) splice.occurrence := by
  intro last nearest first begins met
  obtain ⟨positive, rest, cut⟩ := Site.resolve_cut whole.resolved
  rw [rest] at nearest
  rw [cut] at begins
  have invisibleFirst := Operand.invisible_of_length (Nat.le_refl _) positive nearest
    met.invisible first begins
  rw [← isInvisible_face, met.follows, isInvisible_face, visibleNext] at invisibleFirst
  contradiction

end

/-! The replacement of an operator. -/

theorem Replacement.wrapped_visible {operand : List Tree} (nonempty : operand ≠ []) :
    (wrapped true operand).isInvisible = false := by
  cases operand with
  | nil => contradiction
  | cons tree trees =>
      cases trees with
      | nil =>
          cases shown : (tree.withLeading "").isInvisible with
          | false =>
              simp only [wrapped, bareOperand, needsParens, shown]
              exact shown
          | true =>
              simp only [wrapped, bareOperand, needsParens, shown]
              rfl
      | cons second others => simp [wrapped, bareOperand, needsParens, isInvisible, isGroup]

namespace Tree

variable {tree : Tree}

theorem isInvisible_of_isPlainToken (plain : tree.isPlainToken = true) :
    tree.isInvisible = false := by
  cases tree with
  | leaf token => rfl
  | group bracket children => contradiction

theorem seen_of_goesOn (goesOn : tree.goesOn = true) :
    tree.isInvisible = false ∧ tree.isPunct "::" = false := by
  cases tree with
  | leaf token =>
      refine ⟨rfl, ?_⟩
      simp only [Tree.goesOn, isPunctIn, anyToken, isGroup, Bool.or_false, Bool.and_eq_true,
        List.contains_iff_mem] at goesOn
      have noPath : token.text ≠ "::" := by
        intro same
        rw [same] at goesOn
        exact absurd goesOn.2 (by decide)
      simp [Tree.isPunct, anyToken, Token.isPunct, noPath]
  | group bracket children =>
      refine ⟨?_, rfl⟩
      simp only [Tree.goesOn, isPunctIn, anyToken, isGroup, Bool.false_or, Bool.or_eq_true,
        beq_iff_eq] at goesOn
      rcases goesOn with paren | square
      · simp [isInvisible, isGroup, paren]
      · simp [isInvisible, isGroup, square]

end Tree

namespace Occurrence

/-- What the replacement of an operator consists of. -/
def operatorParts (occurrence : Occurrence) : List Tree :=
  occurrence.head.trees ++ [Replacement.wrapped true occurrence.operand]

end Occurrence

section

variable {site : Site} {reach : Nat} {occurrence : Occurrence} {next : Tree}
  (resolved : site.resolve reach = .ok occurrence)
  (operator : occurrence.head.construct.isOperator = true)

include resolved operator

theorem Site.harmless_operatorParts :
    ∀ tree ∈ occurrence.operatorParts, tree.isPunct "::" = false ∧ tree.isInvisible = false := by
  obtain ⟨group, parsed, nonempty, -⟩ := resolve_parts resolved
  intro tree member
  rcases List.mem_append.mp member with inHead | isOperand
  · have plain := Head.plain_of_operator parsed operator tree inHead
    exact ⟨isPunct_of_isPlainToken tree plain, isInvisible_of_isPlainToken plain⟩
  · cases List.mem_singleton.mp isOperand
    exact ⟨Replacement.wrapped_not_separator true (ends_operand resolved),
      Replacement.wrapped_visible nonempty⟩

theorem Site.fronts_replacement :
    Fronts occurrence.operatorParts next (occurrence.replacement true) next := by
  obtain ⟨-, -, -, -, group, after, captured⟩ := resolve_taken resolved
  have noBody : occurrence.body = [] := by
    unfold Body.take at captured
    rw [if_neg (by simp [Construct.takesBody_of_isOperator operator])] at captured
    injection captured with both
    exact (congrArg Prod.fst both).symm
  refine ⟨rfl, (face_of_bare (bare_spaced _)).trans ?_, rfl⟩
  rw [noBody]
  rfl

theorem Site.joins_operator (following : occurrence.after.head? = some next) :
    JoinsAll (Fronts occurrence.operatorParts next) (spliced occurrence true) :=
  joinsAll_append.mpr <| .inr <| .inr <| joinsAll_cons.mpr <|
    .inl ⟨next, following, fronts_replacement resolved operator⟩

end

namespace Fragment

/-- In the result of a strict run that puts compound operands in parentheses and dissolves the
groups of replacements, an operator, its operand and what the expression goes on with behind
them stand side by side.  So what follows goes on with the operand alone, whatever becomes of
the replacement on the way. -/
theorem front_exposes_operators {settings : Settings} {fragment result : Fragment}
    (strict : settings.tolerant = false) (parenthesize : settings.parenthesize = true)
    (dissolve : settings.keepGroups = false)
    (succeeded : (fragment.front settings).result = .ok result)
    {occurrence : Occurrence} {replacement next : Tree}
    (spliced : .spliced occurrence replacement ∈ (fragment.front settings).events)
    (operator : occurrence.head.construct.isOperator = true)
    (following : occurrence.after.head? = some next) (goesOn : next.goesOn = true) :
    Shows ((occurrence.head.trees ++ [Replacement.wrapped true occurrence.operand, next]).map face)
      result.children := by
  obtain ⟨splices, final, trace, whole, told, rfl, -⟩ := front_unbounded strict succeeded
  rw [parenthesize] at trace told
  have made : .spliced occurrence replacement ∈ splices.map (Splice.event true) := by
    rw [← told]
    exact List.mem_filter.mpr ⟨spliced, rfl⟩
  obtain ⟨splice, member, same⟩ := List.mem_map.mp made
  cases same
  obtain ⟨former, later, rfl, -, -, rest⟩ := trace.split member
  obtain ⟨visibleNext, noPath⟩ := seen_of_goesOn goesOn
  have resolved := (whole splice member).resolved
  have harmless := Site.harmless_operatorParts resolved operator
  have fronts : JoinsAll (Fronts splice.occurrence.operatorParts next) (splice.target true) :=
    Frame.joinsAll_fill splice.frames (Site.joins_operator resolved operator following)
  have lasting := lasting_fronts (fun part known => (harmless part known).1) noPath
  have stays := rest.joinsAll_final lasting
    (fun other isLater => (whole other (by simp [isLater])).spares_fronts visibleNext) fronts
  have dissolves : Dissolves (Fronts splice.occurrence.operatorParts next) _ :=
    dissolves_fronts (fun part known => (harmless part known).2) visibleNext
  rw [settle, if_neg (by simp [dissolve])]
  have shown := dissolves.shows stays
  rwa [Occurrence.operatorParts, List.append_assoc] at shown

/-- Whether an event tells of an operator in front of an operand that the expression goes on
behind. -/
def exposes : Event → Bool
  | .spliced occurrence _ =>
      occurrence.head.construct.isOperator && occurrence.after.head?.any Tree.goesOn
  | _ => false

theorem exists_exposed {events : List Event} (exposed : events.any exposes = true) :
    ∃ occurrence replacement next, .spliced occurrence replacement ∈ events ∧
      occurrence.head.construct.isOperator = true ∧ occurrence.after.head? = some next ∧
      next.goesOn = true := by
  obtain ⟨event, member, exposed⟩ := List.any_eq_true.mp exposed
  cases event with
  | spliced occurrence replacement =>
      simp only [exposes, Bool.and_eq_true] at exposed
      cases following : occurrence.after.head? with
      | none => simp [following] at exposed
      | some next =>
          rw [following] at exposed
          exact ⟨occurrence, replacement, next, member, exposed.1, following, exposed.2⟩
  | _ => contradiction

/-- A field behind a reference. -/
theorem front_exposes_operators_field :
    ∃ fragment result occurrence replacement next, read "x::(&).y" "main.rs" = .ok fragment ∧
      (fragment.front {}).result = .ok result ∧
      .spliced occurrence replacement ∈ (fragment.front {}).events ∧
      occurrence.head.construct.isOperator = true ∧ occurrence.after.head? = some next ∧
      next.goesOn = true ∧
      Shows ((occurrence.head.trees ++
        [Replacement.wrapped true occurrence.operand, next]).map face) result.children := by
  have run : (read "x::(&).y" "main.rs").toOption.any fun fragment =>
      (fragment.front {}).result.toOption.any fun _ => (fragment.front {}).events.any exposes := by
    decide +kernel
  obtain ⟨fragment, lexed, run⟩ := exists_ok_of_any run
  obtain ⟨result, succeeded, exposed⟩ := exists_ok_of_any run
  obtain ⟨occurrence, replacement, next, spliced, operator, following, goesOn⟩ :=
    exists_exposed exposed
  exact ⟨fragment, result, occurrence, replacement, next, lexed, succeeded, spliced, operator,
    following, goesOn,
    front_exposes_operators rfl rfl rfl succeeded spliced operator following goesOn⟩

/-- No parentheses keep the field behind the reference.  Where the whole becomes an operand,
they are put around the field, too. -/
theorem front_exposes_operators_bare :
    (∃ fragment result occurrence replacement next, read "x::(&).y" "main.rs" = .ok fragment ∧
      (fragment.front {}).result = .ok result ∧
      .spliced occurrence replacement ∈ (fragment.front {}).events ∧
      occurrence.head.construct.isOperator = true ∧ occurrence.after.head? = some next ∧
      next.goesOn = true ∧
      result.tree.render = "& x.y" ∧ ∀ tree ∈ result.children, tree.isPlainToken = true) ∧
    ∃ fragment result, read "x::(&).y::(*)" "main.rs" = .ok fragment ∧
      (fragment.front {}).result = .ok result ∧ result.tree.render = "* (& x.y)" := by
  have run : (read "x::(&).y" "main.rs").toOption.any fun fragment =>
      (fragment.front {}).result.toOption.any fun result =>
        (fragment.front {}).events.any exposes && result.tree.render == "& x.y" &&
          result.children.all Tree.isPlainToken := by
    decide +kernel
  have longer : (read "x::(&).y::(*)" "main.rs").toOption.any fun fragment =>
      (fragment.front {}).result.toOption.any fun result => result.tree.render == "* (& x.y)" := by
    decide +kernel
  obtain ⟨fragment, lexed, run⟩ := exists_ok_of_any run
  obtain ⟨result, succeeded, run⟩ := exists_ok_of_any run
  obtain ⟨other, lexedOther, longer⟩ := exists_ok_of_any longer
  obtain ⟨resultOther, succeededOther, printed⟩ := exists_ok_of_any longer
  simp only [Bool.and_eq_true, beq_iff_eq, List.all_eq_true] at run
  obtain ⟨occurrence, replacement, next, spliced, operator, following, goesOn⟩ :=
    exists_exposed run.1.1
  exact ⟨⟨fragment, result, occurrence, replacement, next, lexed, succeeded, spliced, operator,
    following, goesOn, run.1.2, run.2⟩,
    other, resultOther, lexedOther, succeededOther, by simpa using printed⟩

end Fragment

end Headfirst
