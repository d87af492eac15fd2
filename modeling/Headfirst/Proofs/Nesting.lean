import Headfirst.Fragment.Grammar
import Headfirst.Tree.View

namespace Headfirst

/-! What the grammar of token trees makes of brackets and of a stream.

A bracket is never a token, so a group that does not match leaves nothing to try. -/

variable {char : Char} {delimiter : Delimiter} {rest : List Char}

theorem char_of_opener (opens : openerDelimiter? char = some delimiter) :
    char = '(' ∨ char = '\x7b' ∨ char = '[' := by
  unfold openerDelimiter? at opens
  split at opens <;> simp_all

theorem char_of_closer (closes : closerDelimiter? char = some delimiter) :
    char = ')' ∨ char = '\x7d' ∨ char = ']' := by
  unfold closerDelimiter? at closes
  split at closes <;> simp_all

theorem closerDelimiter?_opener (opens : openerDelimiter? char = some delimiter) :
    closerDelimiter? char = none := by
  rcases char_of_opener opens with rfl | rfl | rfl <;> rfl

theorem openerDelimiter?_closer (closes : closerDelimiter? char = some delimiter) :
    openerDelimiter? char = none := by
  rcases char_of_closer closes with rfl | rfl | rfl <;> rfl

theorem opening_of_opener (opens : openerDelimiter? char = some delimiter) :
    delimiter.opening.toList = [char] := by
  rcases char_of_opener opens with rfl | rfl | rfl <;> cases opens <;> rfl

theorem closing_of_closer (closes : closerDelimiter? char = some delimiter) :
    delimiter.closing.toList = [char] := by
  rcases char_of_closer closes with rfl | rfl | rfl <;> cases closes <;> rfl

theorem Lexeme.first_opener (opens : openerDelimiter? char = some delimiter) :
    Lexeme.first (char :: rest) = none := by
  rcases char_of_opener opens with rfl | rfl | rfl <;> rfl

theorem Lexeme.first_closer (closes : closerDelimiter? char = some delimiter) :
    Lexeme.first (char :: rest) = none := by
  rcases char_of_closer closes with rfl | rfl | rfl <;> rfl

section

variable {read : TokenKind × Nat} (token : Lexeme.first (char :: rest) = some read)

include token

theorem openerDelimiter?_token : openerDelimiter? char = none := by
  cases opens : openerDelimiter? char with
  | none => rfl
  | some delimiter => simp [Lexeme.first_opener opens] at token

theorem closerDelimiter?_token : closerDelimiter? char = none := by
  cases closes : closerDelimiter? char with
  | none => rfl
  | some delimiter => simp [Lexeme.first_closer closes] at token

end

theorem Trivia.length_opener (opens : openerDelimiter? char = some delimiter) :
    Trivia.length (char :: rest) = 0 := by
  refine length_noItem ?_
  rcases char_of_opener opens with rfl | rfl | rfl <;> rfl

theorem Trivia.length_closer (closes : closerDelimiter? char = some delimiter) :
    Trivia.length (char :: rest) = 0 := by
  refine length_noItem ?_
  rcases char_of_closer closes with rfl | rfl | rfl <;> rfl

namespace Grammar

variable {trees : Rule Tree} {loc : Loc} {text : List Char}

theorem stream_of_end (ended : text.drop (Trivia.length text) = []) :
    stream trees loc text =
      .matched ⟨[], String.ofList (text.take (Trivia.length text))⟩ (Trivia.length text) := by
  rw [stream.eq_def]
  dsimp only
  split
  · rfl
  · simp_all

section

variable (found : text.drop (Trivia.length text) = char :: rest)

include found

theorem stream_of_tree {first : Tree} {further : Nat}
    (read : trees (loc.past (text.take (Trivia.length text))) (char :: rest) =
      .matched first (further + 1)) :
    stream trees loc text =
      (stream trees ((loc.past (text.take (Trivia.length text))).past (char :: rest.take further))
        (rest.drop further)).map
        (fun stretch => { stretch with
          trees := first.withLeading (String.ofList (text.take (Trivia.length text))) ::
            stretch.trees })
        (Trivia.length text + (further + 1)) := by
  rw [stream.eq_def]
  dsimp only
  split <;> simp_all

theorem stream_of_noTree
    (deep : trees (loc.past (text.take (Trivia.length text))) (char :: rest) ≠ .tooDeep)
    (none : ∀ first further,
      trees (loc.past (text.take (Trivia.length text))) (char :: rest) ≠
        .matched first (further + 1)) :
    stream trees loc text =
      .matched ⟨[], String.ofList (text.take (Trivia.length text))⟩ (Trivia.length text) := by
  rw [stream.eq_def]
  dsimp only
  split
  · rfl
  · rename_i other others same
    rw [found] at same
    cases same
    simp only

end

/-! The character in front decides which alternative a tree can be. -/

theorem group_of_other {inside : Rule Stretch} (other : openerDelimiter? char ≠ some delimiter) :
    group delimiter inside loc (char :: rest) = .failed :=
  if_neg other

theorem tree_nil (inside : Rule Stretch) : tree inside loc [] = .failed := by
  have noToken : Lexeme.first [] = none := by cbv
  simp [tree, Rule.orElse, group, token, noToken]

theorem tree_opener {inside : Rule Stretch} (opens : openerDelimiter? char = some delimiter) :
    tree inside loc (char :: rest) = group delimiter inside loc (char :: rest) := by
  have noToken : token loc (char :: rest) = .failed := by
    simp [token, Lexeme.first_opener opens]
  have others (other : Delimiter) (ne : delimiter ≠ other) :
      group other inside loc (char :: rest) = .failed :=
    group_of_other (by rw [opens]; exact fun same => ne (Option.some.inj same))
  cases delimiter with
  | paren =>
      simp only [tree, Rule.orElse, noToken, others .brace nofun, others .bracket nofun]
      split <;> simp_all only
  | brace =>
      simp only [tree, Rule.orElse, noToken, others .paren nofun, others .bracket nofun]
      split <;> simp_all only
  | bracket =>
      simp only [tree, Rule.orElse, noToken, others .paren nofun, others .brace nofun]
      split <;> simp_all only
  | invisible => rcases char_of_opener opens with rfl | rfl | rfl <;> contradiction

theorem tree_noOpener {inside : Rule Stretch} (noOpener : openerDelimiter? char = none) :
    tree inside loc (char :: rest) = token loc (char :: rest) := by
  have others (other : Delimiter) : group other inside loc (char :: rest) = .failed :=
    group_of_other (by simp [noOpener])
  simp [tree, Rule.orElse, others]

/-! What is read is not nested more deeply than brackets may be. -/

section

variable {bound taken : Nat}

theorem depth_tree_le {inside : Rule Stretch} {first : Tree}
    (shallow : ∀ loc text stretch taken, inside loc text = .matched stretch taken →
      Tree.depthAll stretch.trees < bound)
    (matched : tree inside loc text = .matched first taken) : first.depth ≤ bound := by
  cases text with
  | nil =>
      rw [tree_nil] at matched
      contradiction
  | cons char rest =>
      cases opens : openerDelimiter? char with
      | none =>
          rw [tree_noOpener opens, token] at matched
          split at matched
          · contradiction
          · cases matched
            exact Nat.zero_le bound
      | some delimiter =>
          rw [tree_opener opens, group, if_pos opens] at matched
          cases within : inside (loc.next char) rest with
          | failed => simp [within] at matched
          | tooDeep => simp [within] at matched
          | matched stretch further =>
              have below := shallow _ _ _ _ within
              simp only [within] at matched
              split at matched
              · contradiction
              · split at matched
                · cases matched
                  rw [Tree.depth]
                  omega
                · contradiction

theorem depthAll_stream_le (shallow : ∀ loc text first taken,
      trees loc text = .matched first taken → first.depth ≤ bound) (loc : Loc) (text : List Char) :
    ∀ stretch taken, stream trees loc text = .matched stretch taken →
      Tree.depthAll stretch.trees ≤ bound := by
  fun_induction stream trees loc text with
  | case1 =>
      rintro _ _ ⟨⟩
      exact Nat.zero_le bound
  | case2 => exact nofun
  | case3 loc text ahead leading char rest found first further read lexeme ih =>
      generalize stream trees ((loc.past (text.take ahead)).past lexeme) (rest.drop further) =
        attempt at ih ⊢
      cases attempt with
      | matched later length =>
          rintro _ _ ⟨⟩
          have here := shallow _ _ _ _ read
          have behind := ih _ _ rfl
          simp only [Tree.depthAll, Tree.depth_withLeading]
          omega
      | failed => exact nofun
      | tooDeep => exact nofun
  | case4 =>
      rintro _ _ ⟨⟩
      exact Nat.zero_le bound

theorem depthAll_nested_le (depth : Nat) {loc : Loc} {text : List Char} {stretch : Stretch}
    (matched : nested depth loc text = .matched stretch taken) :
    Tree.depthAll stretch.trees ≤ depth := by
  induction depth generalizing loc text stretch taken with
  | zero =>
      refine depthAll_stream_le (fun _ _ _ _ => depth_tree_le ?_) _ _ _ _ matched
      intro loc text stretch taken within
      contradiction
  | succ depth ih =>
      refine depthAll_stream_le (fun _ _ _ _ => depth_tree_le ?_) _ _ _ _ matched
      intro loc text stretch taken within
      exact Nat.lt_succ_of_le (ih within)

end

/-! Where brackets may be nested more deeply, a rule reads the same or reads more. -/

namespace Rule

variable {α : Type}

def Extends (shallow deep : Rule α) : Prop :=
  ∀ loc text, shallow loc text = .tooDeep ∨ deep loc text = shallow loc text

theorem extends_refl (rule : Rule α) : Extends rule rule :=
  fun _ _ => .inr rfl

theorem Extends.orElse {first second first' second' : Rule α} (left : Extends first first')
    (right : Extends second second') :
    Extends (first.orElse second) (first'.orElse second') := by
  intro loc text
  simp only [Rule.orElse]
  rcases left loc text with deep | same
  · simp [deep]
  · rw [same]
    split
    · exact right loc text
    · exact .inr rfl

end Rule

open Rule (Extends)

theorem group_extends {shallow deep : Rule Stretch} (inside : Extends shallow deep)
    (delimiter : Delimiter) : Extends (group delimiter shallow) (group delimiter deep) := by
  intro loc text
  cases text with
  | nil => exact .inr rfl
  | cons opening rest =>
      simp only [group]
      split
      · rcases inside (loc.next opening) rest with tooDeep | same
        · simp [tooDeep]
        · exact .inr (by rw [same])
      · exact .inr rfl

theorem tree_extends {shallow deep : Rule Stretch} (inside : Extends shallow deep) :
    Extends (tree shallow) (tree deep) :=
  (group_extends inside .paren).orElse <| (group_extends inside .brace).orElse <|
    (group_extends inside .bracket).orElse (Rule.extends_refl token)

theorem stream_extends {shallow deep : Rule Tree} (wider : Extends shallow deep) :
    Extends (stream shallow) (stream deep) := by
  intro loc text
  fun_induction stream shallow loc text with
  | case1 loc text ahead leading ended => exact .inr (stream_of_end ended)
  | case2 => exact .inl rfl
  | case3 loc text ahead leading char rest found first further read lexeme ih =>
      have same := (wider (loc.past (text.take ahead)) (char :: rest)).resolve_left (by simp [read])
      rw [stream_of_tree found (same.trans read)]
      rcases ih with tooDeep | later
      · exact .inl (by rw [tooDeep]; rfl)
      · exact .inr (by rw [later])
  | case4 loc text ahead leading char rest found deep none =>
      have same := (wider (loc.past (text.take ahead)) (char :: rest)).resolve_left deep
      exact .inr (stream_of_noTree found (by rwa [same]) (by rwa [same]))

theorem nested_extends (depth : Nat) : Extends (nested depth) (nested (depth + 1)) := by
  induction depth with
  | zero => exact stream_extends (tree_extends fun _ _ => .inl rfl)
  | succ depth ih => exact stream_extends (tree_extends ih)

/-- What can be read at all reads the same where brackets may be nested more deeply. -/
theorem nested_of_le {depth more : Nat} (le : depth ≤ more) :
    Extends (nested depth) (nested more) := by
  induction le with
  | refl => exact Rule.extends_refl _
  | step le ih =>
      intro loc text
      rcases ih loc text with tooDeep | same
      · exact .inl tooDeep
      · rcases nested_extends _ loc text with tooDeep | further
        · exact .inl (same.symm.trans tooDeep)
        · exact .inr (further.trans same)

end Grammar

end Headfirst
