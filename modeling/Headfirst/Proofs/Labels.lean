import Headfirst.Proofs.Faults
import Headfirst.Proofs.Table

namespace Headfirst

open Headfirst.Tree Table

/-! Labels in front of what cannot have one.

A head is taken apart before its label is looked at, and the label is only carried along.  So a
label is refused in front of a construct that cannot have one if the head is well-formed without
it, and otherwise the head fails as it would without the label. -/

namespace Construct

variable {construct : Construct} {tree : Tree} {rest : List Tree}

/-- A tree with which a head without a label can begin. -/
def Opens (tree : Tree) : Prop :=
  ∃ (construct : Construct) (rest : List Tree), tree :: rest ∈ construct.bare

/-- What can have a label begins with the keyword of a loop. -/
theorem isKeywordIn_of_allowsLabel (member : tree :: rest ∈ construct.bare)
    (allowed : construct.allowsLabel = true) :
    tree.isKeywordIn ["while", "for", "loop"] = true := by
  have spelled : ∃ text ∈ ["while", "for", "loop"], tree.isKeyword text = true := by
    cases construct with
    | whileLoop | loop => exact ⟨_, by simp, (cons_mem_one.mp member).1⟩
    | whileLet =>
        rw [bare, mul_assoc, mul_assoc] at member
        exact ⟨_, by simp, (cons_mem_one_mul.mp member).1⟩
    | forIn =>
        rw [bare, mul_assoc] at member
        exact ⟨_, by simp, (cons_mem_one_mul.mp member).1⟩
    | block => contradiction
    | _ => contradiction
  obtain ⟨text, among, is⟩ := spelled
  obtain ⟨keyword, rfl, reserved, rfl⟩ := exists_word_of_isKeyword is
  simp only [isKeywordIn, anyToken, reserved, Bool.true_and]
  exact List.contains_iff_mem.mpr among

end Construct

namespace Head

open Construct

variable {label rest : List Tree} {keyword : Token} {head : Head}

def relabel (label : List Tree) (head : Head) : Head :=
  { head with label }

/-! The label is only carried along. -/

theorem complete_relabel (head : Head) (what : String) :
    complete what (head.relabel label) rest = (complete what head rest).map (relabel label) := by
  cases rest <;> rfl

theorem binding_relabel (head : Head) (link : String) :
    binding (head.relabel label) link rest = (binding head link rest).map (relabel label) := by
  simp only [binding, relabel]
  split
  · rfl
  · split
    · split <;> rfl
    · rfl
  · rfl

theorem condition_relabel (plain withLet : Construct) :
    condition plain withLet label keyword rest =
      (condition plain withLet [] keyword rest).map (relabel label) := by
  unfold condition
  split
  · rfl
  · split
    · exact binding_relabel { construct := withLet, keywords := [keyword, _] } "="
    · rfl
  · rfl

theorem modified_relabel (construct : Construct) (what modifier : String) :
    modified construct what modifier label keyword rest =
      (modified construct what modifier [] keyword rest).map (relabel label) := by
  unfold modified
  split
  · split
    · exact complete_relabel { construct, keywords := [keyword, _] } what
    · rfl
  · exact complete_relabel { construct, keywords := [keyword] } what

theorem leaving_relabel :
    leaving label keyword rest = (leaving [] keyword rest).map (relabel label) := by
  unfold leaving
  split
  · split
    · exact complete_relabel
        { construct := .breakOut, keywords := [keyword], argument := [_] } "break"
    · rfl
  · rfl

/-- A head with a label is the one without it, with the label. -/
theorem ofKeyword_relabel :
    ofKeyword label keyword rest = (ofKeyword [] keyword rest).map (relabel label) := by
  have bare (construct : Construct) (what : String) :
      complete what { construct, label, keywords := [keyword] } rest =
        (complete what { construct, keywords := [keyword] } rest).map (relabel label) :=
    complete_relabel { construct, keywords := [keyword] } what
  have bound (construct : Construct) (link : String) :
      binding { construct, label, keywords := [keyword] } link rest =
        (binding { construct, keywords := [keyword] } link rest).map (relabel label) :=
    binding_relabel { construct, keywords := [keyword] } link
  unfold ofKeyword
  simp only
  split
  · split
    case h_8 | h_9 => exact condition_relabel ..
    case h_10 | h_11 => exact bound ..
    case h_12 => exact modified_relabel ..
    case h_13 => exact leaving_relabel
    case h_14 => rfl
    all_goals exact bare ..
  · split
    · split
      case h_1 | h_2 => exact modified_relabel ..
      case h_6 => rfl
      all_goals exact bare ..
    · rfl

/-! What is wrong with a head. -/

/-- A result that fails, if it does, at what stands behind the keyword of a head. -/
def Malforms (result : Except Failure Head) : Prop :=
  ∀ failure, result = .error failure → failure.fault.category = .head

theorem Malforms.ok : Malforms (.ok head) := by
  intro failure failed
  contradiction

theorem Malforms.error {failure : Failure} (category : failure.fault.category = .head) :
    Malforms (.error failure) := by
  intro other failed
  cases failed
  exact category

theorem malforms_complete (what : String) : Malforms (complete what head rest) := by
  cases rest with
  | nil => exact .ok
  | cons tree rest => exact .error rfl

theorem malforms_binding (link : String) : Malforms (binding head link rest) := by
  unfold binding
  simp only
  split
  · exact .error rfl
  · split
    · split
      · exact .error rfl
      · exact .ok
    · exact .error rfl
  · exact .error rfl

theorem malforms_condition (plain withLet : Construct) :
    Malforms (condition plain withLet label keyword rest) := by
  unfold condition
  split
  · exact .ok
  · split
    · exact malforms_binding "="
    · exact .error rfl
  · exact .error rfl

theorem malforms_modified (construct : Construct) (what modifier : String) :
    Malforms (modified construct what modifier label keyword rest) := by
  unfold modified
  split
  · split
    · exact malforms_complete what
    · exact .error rfl
  · exact malforms_complete what

theorem malforms_leaving : Malforms (leaving label keyword rest) := by
  unfold leaving
  split
  · split
    · exact malforms_complete "break"
    · exact .error rfl
  · exact .ok

theorem opens_iff :
    Opens (.leaf keyword) ↔ ∃ others, (ofKeyword [] keyword others).isOk = true := by
  constructor
  · rintro ⟨construct, others, member⟩
    obtain ⟨head, parsed, -⟩ := ofKeyword_gives.mpr member
    exact ⟨others, by rw [parsed]; rfl⟩
  · rintro ⟨others, parsed⟩
    cases found : ofKeyword [] keyword others with
    | error failure =>
        rw [found] at parsed
        contradiction
    | ok head => exact ⟨head.construct, others, ofKeyword_gives.mp ⟨head, found, rfl⟩⟩

/-- What begins heads can only be malformed behind it. -/
theorem malforms_of_opens (opens : Opens (.leaf keyword)) :
    Malforms (ofKeyword [] keyword rest) := by
  obtain ⟨others, parsed⟩ := opens_iff.mp opens
  unfold ofKeyword at parsed ⊢
  simp only at parsed ⊢
  split
  · rename_i reserved
    rw [if_pos reserved] at parsed
    split
    case h_8 | h_9 => exact malforms_condition _ _
    case h_10 | h_11 => exact malforms_binding _
    case h_12 => exact malforms_modified _ _ _
    case h_13 => exact malforms_leaving
    case h_14 => split at parsed <;> contradiction
    all_goals exact malforms_complete _
  · rename_i free
    rw [if_neg free] at parsed
    split
    · rename_i punct
      rw [if_pos punct] at parsed
      split
      case h_1 | h_2 => exact malforms_modified _ _ _
      case h_6 => split at parsed <;> contradiction
      all_goals exact malforms_complete _
    · rename_i other
      rw [if_neg other] at parsed
      contradiction

theorem exists_binding (head : Head) (link : String) :
    ∃ others, (binding head link others).isOk = true := by
  let last : Tree := .leaf { kind := .punct, text := link }
  refine ⟨[last, last], ?_⟩
  have joins : (Token.isKeyword { kind := .punct, text := link } link ||
      Token.isPunct { kind := .punct, text := link } link) = true := by
    simp [Token.isPunct]
  simp only [binding, last, List.getLast?_cons_cons, List.getLast?_singleton, joins, if_true]
  rfl

/-- What begins no head is no construct, whatever is behind it. -/
theorem unknown_of_not_opens (closed : ¬ Opens (.leaf keyword)) :
    ofKeyword [] keyword rest = .error (unknown (.leaf keyword)) := by
  have none (others : List Tree) : (ofKeyword [] keyword others).isOk ≠ true :=
    fun parsed => closed (opens_iff.mpr ⟨others, parsed⟩)
  unfold ofKeyword at none ⊢
  simp only at none ⊢
  split
  · rename_i reserved
    simp only [if_pos reserved] at none
    split
    case h_10 | h_11 =>
      rename_i spelled
      obtain ⟨others, parsed⟩ := exists_binding { construct := _, keywords := [keyword] } _
      refine absurd ?_ (none others)
      rw [spelled]
      exact parsed
    case h_14 => rfl
    all_goals
      rename_i spelled
      refine absurd ?_ (none [])
      rw [spelled]
      rfl
  · rename_i free
    simp only [if_neg free] at none
    split
    · rename_i punct
      simp only [if_pos punct] at none
      split
      case h_6 => rfl
      all_goals
        rename_i spelled
        refine absurd ?_ (none [])
        rw [spelled]
        rfl
    · rfl

/-- The two ways in which a label in front of anything but a loop fails. -/
theorem ofLabelled_cases {tree : Tree} (labelled : label ≠ [])
    (noLoop : tree.isKeywordIn ["while", "for", "loop"] = false) :
    ((Opens tree → ∃ construct : Construct, tree :: rest ∈ construct.bare) ∧
        ∃ fault, fault.category = .construct (describe tree) ∧
          ofLabelled label (tree :: rest) = .error ⟨fault, tree.span, none⟩) ∨
      ((Opens tree ∧ ¬ ∃ construct : Construct, tree :: rest ∈ construct.bare) ∧
        ∃ failure, failure.fault.category = .head ∧
          ofLabelled label (tree :: rest) = .error failure ∧
          ofLabelled [] (tree :: rest) = .error failure) := by
  cases tree with
  | group bracket children =>
      refine .inl ⟨fun ⟨construct, others, member⟩ => ?_, _, rfl, rfl⟩
      obtain ⟨keyword, same, -⟩ := exists_first member
      contradiction
  | leaf keyword =>
      simp only [ofLabelled]
      rw [ofKeyword_relabel]
      cases parsed : ofKeyword [] keyword rest with
      | ok head =>
          have member := ofKeyword_gives.mp ⟨head, parsed, rfl⟩
          have refused : head.construct.allowsLabel = false := by
            rw [Bool.eq_false_iff]
            intro allowed
            cases noLoop.symm.trans (isKeywordIn_of_allowsLabel member allowed)
          refine .inl ⟨fun _ => ⟨_, member⟩, .misplacedLabel keyword.text, rfl, ?_⟩
          simp [Except.map, relabel, labelled, refused]
      | error failure =>
          have broken : ¬ ∃ construct : Construct, .leaf keyword :: rest ∈ construct.bare := by
            rintro ⟨construct, member⟩
            obtain ⟨head, found, -⟩ := ofKeyword_gives.mpr member
            cases parsed.symm.trans found
          by_cases opens : Opens (.leaf keyword)
          · exact .inr ⟨⟨opens, broken⟩, failure, malforms_of_opens opens failure parsed, rfl, rfl⟩
          · obtain ⟨⟩ := parsed.symm.trans (unknown_of_not_opens opens)
            exact .inl ⟨fun opened => absurd opened opens, _, rfl, rfl⟩

/-- A head that is malformed, and elsewhere than at the given tree. -/
def malformedPast (tree : Tree) : Except Failure Head → Bool
  | .ok _ => false
  | .error failure => failure.fault.category == .head && failure.span != tree.span

theorem exists_of_malformedPast {tree : Tree} {result : Except Failure Head}
    (malformed : malformedPast tree result = true) :
    ∃ failure, result = .error failure ∧ failure.fault.category = .head ∧
      failure.span ≠ tree.span := by
  cases result with
  | ok head => contradiction
  | error failure =>
      rw [malformedPast, Bool.and_eq_true, beq_iff_eq, bne_iff_ne] at malformed
      exact ⟨failure, rfl, malformed⟩

/-- A source that is a head whose label is not followed by a loop. -/
theorem exists_labelled {source : String} {test : Tree → Tree → Bool}
    (run : (Fragment.read source "main.rs").toOption.any fun fragment =>
      fragment.children.head?.any fun group => group.isGroup .paren &&
        match group.children with
        | first :: colon :: tree :: _ => first.isLifetime && colon.isPunct ":" &&
            !tree.isKeywordIn ["while", "for", "loop"] && test group tree
        | _ => false) :
    ∃ fragment group first colon tree rest, Fragment.read source "main.rs" = .ok fragment ∧
      fragment.children.head? = some group ∧ group.isGroup .paren = true ∧
      group.children = first :: colon :: tree :: rest ∧ first.isLifetime = true ∧
      colon.isPunct ":" = true ∧ tree.isKeywordIn ["while", "for", "loop"] = false ∧
      test group tree = true := by
  obtain ⟨fragment, lexed, run⟩ := exists_ok_of_any run
  rw [Option.any_eq_true] at run
  obtain ⟨group, here, run⟩ := run
  obtain ⟨paren, run⟩ := Bool.and_eq_true_iff.mp run
  split at run
  · rename_i first colon tree rest children
    simp only [Bool.and_eq_true, Bool.not_eq_true'] at run
    obtain ⟨⟨⟨named, marked⟩, noLoop⟩, tested⟩ := run
    exact ⟨fragment, group, first, colon, tree, rest, lexed, here, paren, children, named, marked,
      noLoop, tested⟩
  · contradiction

/-- A label in front of anything but a loop is an error, and one about an unknown construct at the
tree behind the label, unless that tree begins a head and the head is malformed behind it.  Then it
is the error of the head without the label. -/
theorem parse_misplaced_label {group first colon tree : Tree} {rest : List Tree} (marker : Tree)
    (paren : group.isGroup .paren = true)
    (labelled : group.children = first :: colon :: tree :: rest)
    (named : first.isLifetime = true) (marked : colon.isPunct ":" = true)
    (noLoop : tree.isKeywordIn ["while", "for", "loop"] = false) :
    ∃ failure, parse (some group) marker = .error failure ∧
      ((failure.fault.category = .construct (describe tree) ∧ failure.span = tree.span) ↔
        (Opens tree → ∃ construct : Construct, tree :: rest ∈ construct.bare)) ∧
      ((Opens tree ∧ ¬ ∃ construct : Construct, tree :: rest ∈ construct.bare) →
        failure.fault.category = .head ∧
          (∃ culprit ∈ tree :: rest, failure.span = culprit.span) ∧
          ∀ unlabelled : Tree, unlabelled.isGroup .paren = true →
            unlabelled.children = tree :: rest →
            parse (some unlabelled) marker = .error failure) := by
  have parsed : parse (some group) marker = ofLabelled [first, colon] (tree :: rest) := by
    simp [parse, ofGroup, paren, labelled, ofTrees, named, marked]
  rw [parsed]
  rcases @ofLabelled_cases [first, colon] rest tree (by simp) noLoop with
    ⟨whole, fault, category, failed⟩ | ⟨⟨opens, broken⟩, failure, category, failed, unlabelled⟩
  · refine ⟨_, failed, iff_of_true ⟨category, rfl⟩ whole, fun malformed => ?_⟩
    exact absurd (whole malformed.1) malformed.2
  · refine ⟨failure, failed, iff_of_false ?_ fun whole => broken (whole opens), fun _ => ?_⟩
    · rintro ⟨other, -⟩
      cases category.symm.trans other
    · refine ⟨category, (blames_ofLabelled ..).tree failure failed, fun other paren children => ?_⟩
      obtain ⟨construct, others, member⟩ := opens
      simp [parse, ofGroup, paren, children, ofTrees, isLifetime_first member, unlabelled]

/-- A conditional that is whole behind its label. -/
theorem parse_misplaced_label_conditional :
    ∃ fragment group first colon tree rest failure,
      Fragment.read "('l: if let Some(x) =)" "main.rs" = .ok fragment ∧
      fragment.children.head? = some group ∧ group.isGroup .paren = true ∧
      group.children = first :: colon :: tree :: rest ∧ first.isLifetime = true ∧
      colon.isPunct ":" = true ∧ tree.isKeywordIn ["while", "for", "loop"] = false ∧
      parse (some group) default = .error failure ∧
      failure.fault.category = .construct "if" ∧ failure.span = tree.span := by
  obtain ⟨fragment, group, first, colon, tree, rest, lexed, here, paren, children, named, marked,
      noLoop, tested⟩ :=
    @exists_labelled "('l: if let Some(x) =)"
      (fun group tree => describe tree == "if" &&
        (ofLabelled [] (group.children.drop 2)).isOk) (by decide +kernel)
  rw [Bool.and_eq_true, beq_iff_eq, children] at tested
  obtain ⟨spelled, whole⟩ := tested
  obtain ⟨failure, failed, claimed, -⟩ :=
    parse_misplaced_label default paren children named marked noLoop
  have member : ∃ construct : Construct, tree :: rest ∈ construct.bare := by
    cases parsed : ofLabelled [] (tree :: rest) with
    | error failure =>
        rw [List.drop_succ_cons, List.drop_succ_cons, List.drop_zero, parsed] at whole
        contradiction
    | ok head => exact ⟨_, ((ofLabelled_gives (by simp)).mp ⟨head, parsed, rfl⟩).1⟩
  obtain ⟨category, span⟩ := claimed.mpr fun _ => member
  exact ⟨fragment, group, first, colon, tree, rest, failure, lexed, here, paren, children, named,
    marked, noLoop, failed, by rw [category, spelled], span⟩

/-- What is too much behind `match` is the error, and not the label in front of it. -/
theorem parse_misplaced_label_malformed :
    ∃ fragment group first colon tree rest failure,
      Fragment.read "('l: match x)" "main.rs" = .ok fragment ∧
      fragment.children.head? = some group ∧ group.isGroup .paren = true ∧
      group.children = first :: colon :: tree :: rest ∧ first.isLifetime = true ∧
      colon.isPunct ":" = true ∧ tree.isKeywordIn ["while", "for", "loop"] = false ∧
      parse (some group) default = .error failure ∧
      failure.fault.category = .head ∧ failure.span ≠ tree.span := by
  obtain ⟨fragment, group, first, colon, tree, rest, lexed, here, paren, children, named, marked,
      noLoop, tested⟩ :=
    @exists_labelled "('l: match x)"
      (fun group tree => malformedPast tree (parse (some group) default)) (by decide +kernel)
  obtain ⟨failure, failed, category, elsewhere⟩ := exists_of_malformedPast tested
  exact ⟨fragment, group, first, colon, tree, rest, failure, lexed, here, paren, children, named,
    marked, noLoop, failed, category, elsewhere⟩

end Head

end Headfirst
