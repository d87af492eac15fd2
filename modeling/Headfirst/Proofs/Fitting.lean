import Headfirst.Proofs.Pinned

namespace Headfirst

open Headfirst.Tree

/-! When a marker can be resolved: an operand ends in front of it, and a head stands behind it
with all that its construct takes. -/

namespace Site

/-- Whether an operand ends right in front of a marker, if every marker before is left
untouched. -/
def hasOperand (before : List Tree) : Bool :=
  before.head?.any (fun nearest =>
    !Operand.isBoundary nearest && !nearest.isPunctIn Operand.danglingOperators) &&
      !isPinned before

/-- Whether a head and what belongs to its construct follow a marker. -/
def IsFit (after : List Tree) : Prop :=
  ∃ group rest head parts, after = group :: rest ∧ Head.ofGroup group = .ok head ∧
    Body.take head group rest = .ok parts

theorem exists_take_iff (site : Site) :
    (∃ operand, Operand.take site.reach site.before site.marker = .ok operand) ↔
      hasOperand site.before = true := by
  unfold reach hasOperand
  cases pinned : isPinned site.before with
  | true => simp [Operand.take, Operand.length]
  | false =>
      cases site.before with
      | nil => simp [Operand.take, Operand.length]
      | cons nearest farther =>
          obtain ⟨operand, found⟩ :=
            Operand.take_succ_cons farther.length nearest farther site.marker
          rw [if_neg Bool.false_ne_true, List.length_cons, found]
          cases fault : Operand.failure? nearest site.marker with
          | some failure =>
              simp only [Operand.failure?] at fault
              split at fault
              · rename_i boundary
                simp [boundary]
              · split at fault
                · rename_i dangling
                  simp [dangling]
                · contradiction
          | none =>
              simp only [Operand.failure?] at fault
              split at fault
              · contradiction
              · rename_i noBoundary
                split at fault
                · contradiction
                · rename_i sound
                  simp [noBoundary, sound]

/-- A marker can be resolved if there is an operand in front of it and a whole construct
behind it. -/
theorem failure?_eq_none_iff (site : Site) :
    site.failure? = none ↔ hasOperand site.before = true ∧ IsFit site.after := by
  rw [← exists_take_iff]
  have divided : site.failure? = none ↔ ∃ occurrence, site.divide site.reach = .ok occurrence := by
    unfold failure? resolve
    cases site.divide site.reach <;> simp
  rw [divided]
  unfold divide
  constructor
  · rintro ⟨occurrence, found⟩
    split at found
    · contradiction
    · rename_i operand taken
      refine ⟨⟨operand, taken⟩, ?_⟩
      split at found
      · contradiction
      · rename_i group rest following
        split at found
        · contradiction
        · rename_i head parsed
          split at found
          · contradiction
          · rename_i body after captured
            exact ⟨group, rest, head, (body, after), following, parsed, captured⟩
  · rintro ⟨⟨operand, taken⟩, group, rest, head, ⟨body, after⟩, following, parsed, captured⟩
    rw [taken, following]
    simp only [parsed, captured]
    exact ⟨_, rfl⟩

end Site

/-- Whether what belongs to a construct follows its head. -/
def Body.Follows (construct : Construct) (after : List Tree) : Prop :=
  construct.takesBody = true → ∃ block rest, after = block :: rest ∧ isBlock block = true ∧
    (construct.takesElse = true → ∃ chain, elseChain rest = .ok chain)

theorem Body.exists_take_iff {head : Head} {group : Tree} {after : List Tree} :
    (∃ parts, take head group after = .ok parts) ↔ Follows head.construct after := by
  unfold take Follows
  cases takesBody : head.construct.takesBody with
  | false => simp
  | true =>
      cases after with
      | nil => simp
      | cons block rest =>
          have only : (∃ first others, block :: rest = first :: others ∧ isBlock first = true ∧
              (head.construct.takesElse = true → ∃ chain, elseChain others = .ok chain)) ↔
                isBlock block = true ∧
                  (head.construct.takesElse = true → ∃ chain, elseChain rest = .ok chain) := by
            constructor
            · rintro ⟨first, others, same, holds⟩
              cases same
              exact holds
            · exact fun holds => ⟨block, rest, rfl, holds⟩
          simp only [if_true, true_implies, only]
          cases isBlock : isBlock block with
          | false => simp
          | true =>
              cases takesElse : head.construct.takesElse with
              | false => simp
              | true => cases elseChain rest <;> simp

theorem Site.isFit_iff {after : List Tree} : IsFit after ↔
    ∃ group rest head, after = group :: rest ∧ Head.ofGroup group = .ok head ∧
      Body.Follows head.construct rest := by
  constructor
  · rintro ⟨group, rest, head, parts, following, parsed, captured⟩
    exact ⟨group, rest, head, following, parsed, Body.exists_take_iff.mp ⟨parts, captured⟩⟩
  · rintro ⟨group, rest, head, following, parsed, follows⟩
    obtain ⟨parts, captured⟩ := Body.exists_take_iff.mpr follows
    exact ⟨group, rest, head, parts, following, parsed, captured⟩

/-! The construct of a head does not depend on the invisible groups in it. -/

namespace Head

variable {label rest other : List Tree} {keyword : Token} {head result : Head}

theorem construct_complete {what : String} (parsed : complete what head rest = .ok result) :
    result.construct = head.construct := by
  rw [(complete_eq_ok parsed).1]

theorem construct_binding {link : String} (parsed : binding head link rest = .ok result) :
    result.construct = head.construct := by
  unfold binding at parsed
  simp only at parsed
  split at parsed
  · contradiction
  · split at parsed
    · split at parsed
      · contradiction
      · cases parsed
        rfl
    · contradiction
  · contradiction

theorem construct_modified {construct : Construct} {what modifier : String}
    (parsed : modified construct what modifier label keyword rest = .ok head) :
    head.construct = construct := by
  unfold modified at parsed
  split at parsed
  · split at parsed
    · exact construct_complete parsed
    · contradiction
  · exact construct_complete parsed

theorem construct_leaving (parsed : leaving label keyword rest = .ok head) :
    head.construct = .breakOut := by
  unfold leaving at parsed
  split at parsed
  · split at parsed
    · exact construct_complete parsed
    · contradiction
  · cases parsed
    rfl

theorem construct_condition {plain withLet : Construct}
    (parsed : condition plain withLet label keyword rest = .ok head) :
    (rest = [] ∧ head.construct = plain) ∨
      ∃ token others, rest = .leaf token :: others ∧ head.construct = withLet := by
  unfold condition at parsed
  split at parsed
  · cases parsed
    exact .inl ⟨rfl, rfl⟩
  · split at parsed
    · exact .inr ⟨_, _, rfl, construct_binding parsed⟩
    · contradiction
  · contradiction

theorem construct_condition_flatten {plain withLet : Construct}
    (parsed : condition plain withLet label keyword rest = .ok head)
    (dissolved : condition plain withLet label keyword (flattenAll rest) = .ok result) :
    result.construct = head.construct := by
  rcases construct_condition parsed with ⟨rfl, same⟩ | ⟨token, others, rfl, same⟩
  · rcases construct_condition dissolved with ⟨-, plain⟩ | ⟨token, others, found, -⟩
    · rw [plain, same]
    · contradiction
  · rcases construct_condition dissolved with ⟨found, -⟩ | ⟨token, others, -, withLet⟩
    · contradiction
    · rw [withLet, same]

theorem construct_ofKeyword_flatten (parsed : ofKeyword label keyword rest = .ok head)
    (dissolved : ofKeyword label keyword (flattenAll rest) = .ok result) :
    result.construct = head.construct := by
  unfold ofKeyword at parsed dissolved
  simp only at parsed dissolved
  split at parsed
  · rename_i reserved
    rw [if_pos reserved] at dissolved
    split at parsed <;> rename_i text <;> simp only [text] at dissolved
    case h_8 | h_9 => exact construct_condition_flatten parsed dissolved
    case h_10 | h_11 => rw [construct_binding parsed, construct_binding dissolved]
    case h_12 => rw [construct_modified parsed, construct_modified dissolved]
    case h_13 => rw [construct_leaving parsed, construct_leaving dissolved]
    case h_14 => contradiction
    all_goals rw [construct_complete parsed, construct_complete dissolved]
  · rename_i free
    rw [if_neg free] at dissolved
    split at parsed
    · rename_i punct
      rw [if_pos punct] at dissolved
      split at parsed <;> rename_i text <;> simp only [text] at dissolved
      case h_1 | h_2 => rw [construct_modified parsed, construct_modified dissolved]
      case h_6 => contradiction
      all_goals rw [construct_complete parsed, construct_complete dissolved]
    · contradiction

theorem construct_ofLabelled_flatten (parsed : ofLabelled label rest = .ok head)
    (dissolved : ofLabelled label (flattenAll rest) = .ok result) :
    result.construct = head.construct := by
  unfold ofLabelled at parsed
  split at parsed
  · cases parsed
    cases dissolved
    rfl
  · rename_i keyword others
    simp only [flattenAll, flatten, List.singleton_append, ofLabelled] at dissolved
    split at parsed
    · contradiction
    · rename_i inner found
      split at parsed
      · cases parsed
        split at dissolved
        · contradiction
        · rename_i inner' found'
          split at dissolved
          · cases dissolved
            exact construct_ofKeyword_flatten found found'
          · contradiction
      · contradiction
  · contradiction

theorem construct_ofTrees_flatten {group other : Tree} {children : List Tree}
    (parsed : ofTrees group children = .ok head)
    (dissolved : ofTrees other (flattenAll children) = .ok result) :
    result.construct = head.construct := by
  obtain ⟨first, others, rfl, plain⟩ := begins_ofTrees parsed
  cases first with
  | group bracket inner => contradiction
  | leaf token =>
      simp only [ofTrees, flattenAll, flatten, List.singleton_append] at parsed dissolved
      split at parsed
      · rename_i lifetime
        rw [if_pos lifetime] at dissolved
        split at parsed
        · rename_i colon rest
          split at parsed
          · rename_i isColon
            cases colon with
            | group bracket inner => contradiction
            | leaf sign =>
                simp only [flattenAll, flatten, List.singleton_append, if_pos isColon] at dissolved
                exact construct_ofLabelled_flatten parsed dissolved
          · contradiction
        · contradiction
      · rename_i noLabel
        rw [if_neg noLabel] at dissolved
        exact construct_ofLabelled_flatten parsed dissolved

/-- Where the groups in a head are dissolved it is still a head of the same construct, or none. -/
theorem construct_ofGroup_flatten {bracket : Bracket} {children : List Tree}
    (parsed : ofGroup (.group bracket children) = .ok head)
    (dissolved : ofGroup (.group bracket (flattenAll children)) = .ok result) :
    result.construct = head.construct := by
  unfold ofGroup at parsed dissolved
  split at parsed
  · split at dissolved
    · exact construct_ofTrees_flatten parsed dissolved
    · contradiction
  · contradiction

end Head

end Headfirst
