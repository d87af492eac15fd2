import Headfirst.Occurrence.Conservation
import Headfirst.Proofs.MarkerCount

namespace Headfirst

open Headfirst.Tree

/-! The seams of an occurrence: where its parts meet each other and the trees around.

No part of an occurrence ends in a `::`.  So a part can be moved in front of anything, and
no `::` in it starts or stops being a marker. -/

namespace Token

variable {token : Token} {text : String}

theorem isPunct_of_isReserved (reserved : token.isReserved = true) :
    token.isPunct text = false := by
  simp only [isReserved, Bool.and_eq_true, beq_iff_eq] at reserved
  simp [isPunct, reserved.1]

theorem isPunct_of_isKeyword {word : String} (keyword : token.isKeyword word = true) :
    token.isPunct text = false := by
  simp only [isKeyword, Bool.and_eq_true] at keyword
  exact isPunct_of_isReserved keyword.1

theorem isPunct_of_isPunct {other : String} (punct : token.isPunct other = true)
    (different : other ≠ text) : token.isPunct text = false := by
  simp only [isPunct, Bool.and_eq_true, beq_iff_eq] at punct
  simp [isPunct, punct.2, different]

end Token

/-- Whether a tree is a token, and no `::`. -/
def Tree.isPlainToken : Tree → Bool :=
  anyToken (!·.isPunct "::")

theorem Tree.isPunct_of_isPlainToken (tree : Tree) (plain : tree.isPlainToken = true) :
    tree.isPunct "::" = false := by
  cases tree with
  | leaf token => simpa [isPlainToken, anyToken, Tree.isPunct] using plain
  | group bracket children => contradiction

theorem Tree.not_isPlainToken_of_isGroup {delimiter : Delimiter} {tree : Tree}
    (isGroup : tree.isGroup delimiter = true) : tree.isPlainToken = false := by
  obtain ⟨bracket, children, rfl, -⟩ := eq_group_of_isGroup isGroup
  rfl

theorem Token.isPlainToken {token : Token} (harmless : token.isPunct "::" = false) :
    (Tree.leaf token).isPlainToken = true := by
  simp [Tree.isPlainToken, Tree.anyToken, harmless]

theorem Tree.isPlainToken_of_isLifetime {tree : Tree} (lifetime : tree.isLifetime = true) :
    tree.isPlainToken = true := by
  cases tree with
  | group bracket children => contradiction
  | leaf token =>
      have kind : token.kind = .lifetime := by
        simpa [Tree.isLifetime, Tree.anyToken] using lifetime
      exact Token.isPlainToken (by simp [Token.isPunct, kind])

/-- Whether a tree is a token behind which neither a head nor a block is looked for. -/
def Tree.endsHead : Tree → Bool :=
  anyToken fun token => !token.isPunct "::" && !token.isKeyword "else"

theorem Tree.isPlainToken_of_endsHead (tree : Tree) (ends : tree.endsHead = true) :
    tree.isPlainToken = true := by
  cases tree with
  | group bracket children => contradiction
  | leaf token =>
      simp only [endsHead, anyToken, Bool.and_eq_true, Bool.not_eq_true'] at ends
      exact Token.isPlainToken ends.1

theorem Tree.isKeyword_of_endsHead (tree : Tree) (ends : tree.endsHead = true) :
    tree.isKeyword "else" = false := by
  cases tree with
  | group bracket children => contradiction
  | leaf token =>
      simp only [endsHead, anyToken, Bool.and_eq_true, Bool.not_eq_true'] at ends
      exact ends.2

namespace Token

variable {token : Token} {text : String}

theorem endsHead_of_isKeyword (keyword : token.isKeyword text = true) (different : text ≠ "else") :
    (Tree.leaf token).endsHead = true := by
  have noPath : token.isPunct "::" = false := isPunct_of_isKeyword keyword
  simp only [isKeyword, Bool.and_eq_true, beq_iff_eq] at keyword
  simp [Tree.endsHead, Tree.anyToken, noPath, isKeyword, keyword.2, different]

theorem endsHead_of_isPunct (punct : token.isPunct text = true) (different : text ≠ "::") :
    (Tree.leaf token).endsHead = true := by
  have noPath : token.isPunct "::" = false := isPunct_of_isPunct punct different
  simp only [isPunct, Bool.and_eq_true, beq_iff_eq] at punct
  simp [Tree.endsHead, Tree.anyToken, noPath, isKeyword, isReserved, punct.1]

end Token

theorem Tree.endsHead_of_isLifetime {tree : Tree} (lifetime : tree.isLifetime = true) :
    tree.endsHead = true := by
  cases tree with
  | group bracket children => contradiction
  | leaf token =>
      have kind : token.kind = .lifetime := by
        simpa [Tree.isLifetime, Tree.anyToken] using lifetime
      simp [endsHead, anyToken, Token.isPunct, Token.isKeyword, Token.isReserved, kind]

namespace Head

variable {construct : Construct} {label rest : List Tree} {keyword : Token} {head : Head}

theorem ends_binding {keywords : List Token} {link : String} (noPath : link ≠ "::")
    (noElse : link ≠ "else")
    (parsed : binding { construct, label, keywords } link rest = .ok head) :
    EndsIn endsHead rest ∧ rest ≠ [] := by
  unfold binding at parsed
  simp only at parsed
  split at parsed
  · contradiction
  · rename_i token last
    split at parsed
    · rename_i isLink
      refine ⟨?_, by rintro rfl; contradiction⟩
      intro tree found
      rw [last] at found
      cases found
      simp only [Bool.or_eq_true] at isLink
      rcases isLink with isWord | isSign
      · exact Token.endsHead_of_isKeyword isWord noElse
      · exact Token.endsHead_of_isPunct isSign noPath
    · contradiction
  · contradiction

theorem ends_keyword (keywordEnds : (Tree.leaf keyword).endsHead = true)
    (ends : EndsIn endsHead rest) : EndsIn endsHead (.leaf keyword :: rest) := by
  cases rest with
  | nil => exact .concat [] keywordEnds
  | cons tree trees => exact .append [.leaf keyword] ends (by simp)

theorem ends_complete {what : String} {complete' : Head}
    (parsed : complete what complete' rest = .ok head) : EndsIn endsHead rest := by
  obtain ⟨-, rfl⟩ := complete_eq_ok parsed
  exact .nil

theorem ends_condition {plain withLet : Construct}
    (parsed : condition plain withLet label keyword rest = .ok head) : EndsIn endsHead rest := by
  unfold condition at parsed
  split at parsed
  · exact .nil
  · split at parsed
    · rename_i isLet
      exact ends_keyword (Token.endsHead_of_isKeyword isLet (by decide))
        (ends_binding (by decide) (by decide) parsed).1
    · contradiction
  · contradiction

theorem ends_modified {what modifier : String} (noElse : modifier ≠ "else")
    (parsed : modified construct what modifier label keyword rest = .ok head) :
    EndsIn endsHead rest := by
  unfold modified at parsed
  split at parsed
  · split at parsed
    · rename_i isModifier
      exact ends_keyword (Token.endsHead_of_isKeyword isModifier noElse) (ends_complete parsed)
    · contradiction
  · exact ends_complete parsed

theorem ends_leaving (parsed : leaving label keyword rest = .ok head) : EndsIn endsHead rest := by
  unfold leaving at parsed
  split at parsed
  · rename_i tree others
    split at parsed
    · rename_i lifetime
      obtain ⟨-, rfl⟩ := complete_eq_ok parsed
      exact .concat [] (endsHead_of_isLifetime lifetime)
    · contradiction
  · exact .nil

/-- The keyword of a head is reserved, or one of a few signs. -/
theorem isPunct_of_ofKeyword (parsed : ofKeyword label keyword rest = .ok head) :
    keyword.isPunct "::" = false := by
  unfold ofKeyword at parsed
  simp only at parsed
  split at parsed
  · rename_i reserved
    exact Token.isPunct_of_isReserved reserved
  · split at parsed
    · split at parsed
      case h_6 => contradiction
      all_goals
        rename_i text
        simp [Token.isPunct, text]
    · contradiction

theorem endsHead_of_ofKeyword (parsed : ofKeyword label keyword rest = .ok head) :
    (Tree.leaf keyword).endsHead = true := by
  have noPath := isPunct_of_ofKeyword parsed
  have noElse : keyword.isKeyword "else" = false := by
    unfold ofKeyword at parsed
    simp only at parsed
    split at parsed
    · split at parsed
      case h_14 => contradiction
      all_goals
        rename_i text
        simp [Token.isKeyword, text]
    · rename_i notReserved
      simp [Token.isKeyword, notReserved]
  simp [endsHead, anyToken, noPath, noElse]

theorem ends_ofKeyword (parsed : ofKeyword label keyword rest = .ok head) :
    EndsIn endsHead (.leaf keyword :: rest) := by
  refine ends_keyword (endsHead_of_ofKeyword parsed) ?_
  unfold ofKeyword at parsed
  simp only at parsed
  split at parsed
  · split at parsed
    case h_8 | h_9 => exact ends_condition parsed
    case h_10 | h_11 => exact (ends_binding (by decide) (by decide) parsed).1
    case h_12 => exact ends_modified (by decide) parsed
    case h_13 => exact ends_leaving parsed
    case h_14 => contradiction
    all_goals exact ends_complete parsed
  · split at parsed
    · split at parsed
      case h_1 | h_2 => exact ends_modified (by decide) parsed
      case h_6 => contradiction
      all_goals exact ends_complete parsed
    · contradiction

theorem ends_ofLabelled (labelEnds : EndsIn endsHead label)
    (parsed : ofLabelled label rest = .ok head) : EndsIn endsHead (label ++ rest) := by
  unfold ofLabelled at parsed
  split at parsed
  · simpa using labelEnds
  · split at parsed
    · contradiction
    · rename_i inner
      exact .append _ (ends_ofKeyword inner) (by simp)
  · contradiction

theorem ends_ofTrees {group : Tree} {children : List Tree}
    (parsed : ofTrees group children = .ok head) : EndsIn endsHead children := by
  unfold ofTrees at parsed
  split at parsed
  · contradiction
  · split at parsed
    · split at parsed
      · rename_i colon others
        split at parsed
        · rename_i isColon
          have colonEnds : colon.endsHead = true := by
            cases colon with
            | group bracket children => contradiction
            | leaf token => exact Token.endsHead_of_isPunct isColon (by decide)
          exact ends_ofLabelled (.concat [_] colonEnds) parsed
        · contradiction
      · contradiction
    · exact ends_ofLabelled .nil parsed

/-- A head begins with a keyword or with the lifetime of a label. -/
theorem begins_ofTrees {group : Tree} {children : List Tree}
    (parsed : ofTrees group children = .ok head) :
    ∃ first others, children = first :: others ∧ first.isPlainToken = true := by
  unfold ofTrees at parsed
  split at parsed
  · contradiction
  · rename_i first others
    refine ⟨first, others, rfl, ?_⟩
    split at parsed
    · rename_i lifetime
      exact isPlainToken_of_isLifetime lifetime
    · unfold ofLabelled at parsed
      split at parsed
      · contradiction
      · rename_i keyword rest same
        cases same
        split at parsed
        · contradiction
        · rename_i inner
          exact Token.isPlainToken (isPunct_of_ofKeyword inner)
      · contradiction

/-- A head is what its group holds. -/
theorem eq_group {tree : Tree} (parsed : ofGroup tree = .ok head) :
    ∃ bracket, tree = .group bracket head.trees := by
  obtain ⟨bracket, children, rfl, -⟩ := eq_group_of_isGroup (ofGroup_isGroup parsed)
  exact ⟨bracket, by rw [ofGroup_trees parsed]; rfl⟩

theorem begins_ofGroup {tree : Tree} (parsed : ofGroup tree = .ok head) :
    ∃ first others, head.trees = first :: others ∧ first.isPlainToken = true := by
  rw [ofGroup_trees parsed]
  unfold ofGroup at parsed
  split at parsed
  · exact begins_ofTrees parsed
  · contradiction

/-- The last tree of a head is a keyword, a link, a lifetime or the colon of a label. -/
theorem endsHead_ofGroup {tree : Tree} (parsed : ofGroup tree = .ok head) :
    EndsIn endsHead head.trees := by
  rw [ofGroup_trees parsed]
  unfold ofGroup at parsed
  split at parsed
  · exact ends_ofTrees parsed
  · contradiction

theorem endsIn_ofGroup {tree : Tree} (parsed : ofGroup tree = .ok head) :
    EndsIn isPlainToken head.trees :=
  fun last found => isPlainToken_of_endsHead last (endsHead_ofGroup parsed last found)

theorem ends_ofGroup {tree : Tree} (parsed : ofGroup tree = .ok head) :
    EndsHarmlessly head.trees :=
  (endsIn_ofGroup parsed).harmless isPunct_of_isPlainToken

end Head

namespace Body

variable {trees chain body after : List Tree}

theorem ends_guardedBlock {link : List Tree} (found : guardedBlock trees = some (link, after)) :
    EndsIn isBlock link ∧ link ≠ [] := by
  unfold guardedBlock at found
  split at found
  · rename_i first condition block rest taken dropped
    simp only [Option.some.injEq, Prod.mk.injEq] at found
    obtain ⟨rfl, rfl⟩ := found
    have isBlock : isBlock block = true := by
      have stops := List.head?_dropWhile_not (fun tree => !isBlock tree) trees
      simpa [dropped] using stops
    exact ⟨.concat _ isBlock, by simp⟩
  · contradiction

theorem ends_elseChain (taken : elseChain trees = .ok (chain, after)) : EndsIn isBlock chain := by
  fun_induction elseChain trees generalizing chain after with
  | case1 =>
      cases taken
      exact .nil
  | case2 => contradiction
  | case3 tree opens next rest isBlock =>
      cases taken
      exact .concat [_] isBlock
  | case4 => contradiction
  | case5 => contradiction
  | case6 tree opens next rest notBlock isIf link middle found others last tail ih =>
      cases taken
      obtain ⟨linkEnds, nonempty⟩ := ends_guardedBlock found
      have front : EndsIn isBlock (tree :: next :: link) :=
        .append [tree, next] linkEnds nonempty
      by_cases empty : others = []
      · simpa [empty] using front
      · exact .append _ (ih tail) empty
  | case7 => contradiction
  | case8 =>
      cases taken
      exact .nil

/-- A body that is not empty ends in a block. -/
theorem endsIn_take {head : Head} {group : Tree} (taken : take head group trees = .ok (body, after)) :
    EndsIn isBlock body := by
  unfold take at taken
  split at taken
  · split at taken
    · contradiction
    · rename_i first rest
      split at taken
      · rename_i block
        have blockEnds : EndsIn isBlock [first] :=
          .concat [] block
        split at taken
        · split at taken
          · contradiction
          · rename_i chain others chained
            cases taken
            by_cases empty : chain = []
            · simpa [empty] using blockEnds
            · exact .append [first] (ends_elseChain chained) empty
        · cases taken
          exact blockEnds
      · contradiction
  · cases taken
    exact .nil

theorem begins_take {head : Head} {group : Tree} {trees body after : List Tree}
    (taken : take head group trees = .ok (body, after)) :
    ∀ first ∈ body.head?, isBlock first = true := by
  unfold take at taken
  split at taken
  · split at taken
    · contradiction
    · split at taken
      · rename_i block
        split at taken
        · split at taken
          · contradiction
          · cases taken
            simpa using block
        · cases taken
          simpa using block
      · contradiction
  · cases taken
    simp

end Body

end Headfirst
