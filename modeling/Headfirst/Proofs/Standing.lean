import Headfirst.Proofs.Lexing
import Headfirst.Proofs.Nesting
import Headfirst.Proofs.Splice
import Headfirst.Fragment.Read

namespace Headfirst.Fragment

open Grammar

/-! Where the trees of a fragment stand in its source.  The place that a token carries is the
one where it was read, and what follows it among its siblings is what the source goes on
with. -/

variable {source : List Char} {start stop : Nat}

/-- The first place from `start` on at which no trivia stands. -/
def ahead (source : List Char) (start : Nat) : Nat :=
  start + Trivia.length (source.drop start)

/-- The trees that stand in a source from `start` on, each behind its trivia.  At `stop` the
trivia behind the last one ends. -/
inductive Stands (source : List Char) : (start : Nat) → List Tree → (stop : Nat) → Prop where
  | nil {start : Nat} : Stands source start [] (ahead source start)
  | token {start further stop : Nat} {token : Token} {trees : List Tree}
      (read : Lexeme.first (source.drop (ahead source start)) = some (token.kind, further + 1))
      (text : token.text = String.ofList ((source.drop (ahead source start)).take (further + 1)))
      (placed : token.loc.offset = ahead source start)
      (later : Stands source (ahead source start + (further + 1)) trees stop) :
      Stands source start (.leaf token :: trees) stop
  | group {start inner stop : Nat} {bracket : Bracket} {children trees : List Tree}
      (opens : (source.drop (ahead source start)).head?.any
        (openerDelimiter? · = some bracket.delimiter))
      (inside : Stands source (ahead source start + 1) children inner)
      (closes : (source.drop inner).head?.any (closerDelimiter? · = some bracket.delimiter))
      (later : Stands source (inner + 1) trees stop) :
      Stands source start (.group bracket children :: trees) stop

/-- Nothing but the end of a sequence stands at a place. -/
def Ends (source : List Char) (stop : Nat) : Prop :=
  (source.drop stop).head?.all fun char => (closerDelimiter? char).isSome

theorem Stands.withLeading {tree : Tree} {trees : List Tree}
    (stands : Stands source start (tree :: trees) stop) (leading : String) :
    Stands source start (tree.withLeading leading :: trees) stop := by
  cases stands with
  | token read text placed later => exact .token read text placed later
  | group opens inside closes later => exact .group opens inside closes later

/-! What the rules of the grammar read stands in the source. -/

def TreeStands (rule : Rule Tree) : Prop :=
  ∀ {source start loc text tree further}, rule loc text = .matched tree (further + 1) →
    source.drop (ahead source start) = text → loc.offset = ahead source start →
    further < text.length ∧ ∀ {trees stop},
      Stands source (ahead source start + (further + 1)) trees stop →
      Stands source start (tree :: trees) stop

def StreamStands (rule : Rule Stretch) : Prop :=
  ∀ {source loc text stretch taken} {start : Nat}, rule loc text = .matched stretch taken →
    source.drop start = text → loc.offset = start →
    Stands source start stretch.trees (start + taken)

theorem token_stands : TreeStands token := by
  intro source start loc text tree further matched same placed
  subst same
  unfold token at matched
  split at matched
  · contradiction
  · rename_i kind taken read
    cases matched
    have bound := (Lexeme.reads_iff.mpr read).le_length
    exact ⟨bound, fun later => .token read rfl placed later⟩

theorem group_stands {delimiter : Delimiter} {inside : Rule Stretch} (stands : StreamStands inside) :
    TreeStands (group delimiter inside) := by
  intro source start loc text tree further matched same placed
  unfold group at matched
  split at matched
  · contradiction
  · rename_i opening rest
    split at matched
    · rename_i opens
      split at matched
      · contradiction
      · contradiction
      · rename_i stretch taken within
        split at matched
        · contradiction
        · rename_i closing behind found
          split at matched
          · rename_i closes
            cases matched
            have behindOpening : source.drop (ahead source start + 1) = rest := by
              rw [← List.drop_drop, same]
              rfl
            have next : (loc.next opening).offset = (ahead source start + 1 : Nat) := by
              have step := Loc.offset_past loc [opening]
              rw [placed] at step
              exact step
            have inner := stands within behindOpening next
            have closer : source.drop (ahead source start + 1 + taken) = closing :: behind := by
              rw [← List.drop_drop, behindOpening, found]
            have bound : taken < rest.length := by
              have shorter := congrArg List.length found
              rw [List.length_drop, List.length_cons] at shorter
              omega
            refine ⟨Nat.succ_lt_succ bound, fun later => .group ?_ inner ?_ ?_⟩
            · rw [same]
              simpa using opens
            · rw [closer]
              simpa using closes
            · rw [show ahead source start + 1 + taken + 1 =
                ahead source start + (taken + 1 + 1) by omega]
              exact later
          · contradiction
    · contradiction

theorem tree_stands {inside : Rule Stretch} (stands : StreamStands inside) :
    TreeStands (Grammar.tree inside) := by
  intro source start loc text tree further matched same placed
  cases text with
  | nil =>
      rw [tree_nil] at matched
      contradiction
  | cons char rest =>
      cases opens : openerDelimiter? char with
      | some delimiter =>
          rw [tree_opener opens] at matched
          exact group_stands stands matched same placed
      | none =>
          rw [tree_noOpener opens] at matched
          exact token_stands matched same placed

theorem stream_stands {rule : Rule Tree} (stands : TreeStands rule) : StreamStands (stream rule) := by
  intro source loc text stretch taken start matched same placed
  fun_induction stream rule loc text generalizing start stretch taken with
  | case1 =>
      cases matched
      subst same
      exact .nil
  | case2 => contradiction
  | case3 =>
      rename_i loc text gap leading char rest found first further read lexeme ih
      generalize after : stream rule _ (rest.drop further) = attempt at matched
      cases attempt with
      | failed => contradiction
      | tooDeep => contradiction
      | matched later taken =>
          cases matched
          subst same
          have here : source.drop (ahead source start) = char :: rest := by
            rw [ahead, ← List.drop_drop, found]
          have behind : source.drop (ahead source start + (further + 1)) = rest.drop further := by
            rw [← List.drop_drop, here]
            rfl
          have gapLength : gap ≤ (source.drop start).length := by
            have longer := congrArg List.length found
            rw [List.length_drop, List.length_cons] at longer
            omega
          have arrived : (loc.past ((source.drop start).take gap)).offset =
              (ahead source start : Nat) := by
            rw [Loc.offset_past, placed, List.length_take, Nat.min_eq_left gapLength]
            rfl
          obtain ⟨bound, joins⟩ := stands read here arrived
          have gone : ((loc.past ((source.drop start).take gap)).past lexeme).offset =
              (ahead source start + (further + 1) : Nat) := by
            have length : lexeme.length = further + 1 := by
              rw [List.length_cons] at bound
              simp only [lexeme, List.length_cons, List.length_take]
              omega
            rw [Loc.offset_past, arrived, length]
            rfl
          have rest := ih after behind gone
          rw [show ahead source start + (further + 1) + taken =
            start + (gap + (further + 1) + taken) by simp only [ahead, gap]; omega] at rest
          exact (joins rest).withLeading leading
  | case4 =>
      cases matched
      subst same
      exact .nil

theorem nested_stands (depth : Nat) : StreamStands (nested depth) := by
  induction depth with
  | zero =>
      refine stream_stands (tree_stands ?_)
      intro source loc text stretch taken start matched
      contradiction
  | succ depth ih => exact stream_stands (tree_stands ih)

theorem stands_of_read {source file : String} {fragment : Fragment}
    (done : read source file = .ok fragment) :
    ∃ stop, Stands source.toList 0 fragment.children stop ∧ Ends source.toList stop := by
  unfold read at done
  simp only at done
  split at done
  · rename_i stretch taken matched
    split at done
    · rename_i ended
      cases done
      refine ⟨0 + taken, nested_stands maxNesting matched rfl rfl, ?_⟩
      rw [Nat.zero_add, Ends, ended]
      rfl
    · contradiction
  · contradiction

namespace Stands

variable {left right trees : List Tree}

theorem behind (stands : Stands source start (left ++ right) stop) :
    ∃ middle, Stands source middle right stop := by
  induction left generalizing start with
  | nil => exact ⟨start, stands⟩
  | cons tree left ih =>
      cases stands with
      | token read text placed later => exact ih later
      | group opens inside closes later => exact ih later

/-- The innermost sequence ends at a closing bracket, or with the source. -/
theorem innermost {frames : List Frame} (stands : Stands source start (Frame.fill frames trees) stop)
    (ends : Ends source stop) :
    ∃ start stop, Stands source start trees stop ∧ Ends source stop := by
  induction frames generalizing trees with
  | nil => exact ⟨start, stop, stands, ends⟩
  | cons frame frames ih =>
      obtain ⟨start, stop, around, -⟩ := ih stands
      obtain ⟨middle, group⟩ := around.behind
      cases group with
      | group opens inside closes later =>
          refine ⟨_, _, inside, ?_⟩
          rw [Ends]
          cases found : (source.drop _).head? with
          | none => rfl
          | some char =>
              rw [found] at closes
              exact Option.isSome_of_eq_some (of_decide_eq_true closes)

/-- A token stands where it was read, and the trees after it stand behind its text. -/
theorem after_token {token : Token} (stands : Stands source start (.leaf token :: right) stop) :
    ∃ place : Nat, token.loc.offset = place ∧
      source.drop place = token.text.toList ++ source.drop (place + token.text.length) ∧
      Stands source (place + token.text.length) right stop := by
  cases stands with
  | @token _ further _ _ _ read text placed later =>
      have bound := (Lexeme.reads_iff.mpr read).le_length
      have length : token.text.length = further + 1 := by
        rw [text, String.length_ofList, List.length_take, Nat.min_eq_left bound]
      refine ⟨ahead source start, placed, ?_, ?_⟩
      · rw [length, text, String.toList_ofList, ← List.drop_drop, List.take_append_drop]
      · rw [length]
        exact later

/-- Where no bracket stands, the sequence goes on with a token. -/
theorem begins (stands : Stands source start right stop) (ends : Ends source stop) {char : Char}
    {rest : List Char} (found : source.drop (ahead source start) = char :: rest)
    (noOpener : openerDelimiter? char = none) (noCloser : closerDelimiter? char = none) :
    ∃ token others further, right = .leaf token :: others ∧
      Lexeme.first (char :: rest) = some (token.kind, further + 1) ∧
      token.text = String.ofList ((char :: rest).take (further + 1)) := by
  cases stands with
  | nil =>
      rw [Ends, found] at ends
      simp [noCloser] at ends
  | token read text placed later =>
      rw [found] at read text
      exact ⟨_, _, _, rfl, read, text⟩
  | group opens inside closes later =>
      rw [found] at opens
      simp [noOpener] at opens

end Stands

end Headfirst.Fragment
