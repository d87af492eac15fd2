import Headfirst.Proofs.Lexing

namespace Headfirst.Trivia

open Pattern

/-! Trivia that a token follows is complete: it is the same in front of any other text. -/

/-- The trivia ends by itself, whatever stands behind it. -/
def Complete (gap : List Char) : Prop :=
  ∀ behind, length (gap ++ behind) = gap.length + length behind

theorem complete_nil : Complete [] := by
  simp [Complete]

theorem Complete.append {left right : List Char} (first : Complete left) (second : Complete right) :
    Complete (left ++ right) := by
  intro behind
  rw [List.append_assoc, first, second, List.length_append, Nat.add_assoc]

variable {char : Char} {rest behind : List Char} {further : Nat}

theorem item_blank (blank : Text.isBlank char) : item (char :: rest) = some 1 := by
  simp [item, orElse, one, blank]

theorem complete_space : Complete [' '] := by
  intro behind
  exact length_item (item_blank (by decide))

theorem blockCommentEnd_ne_zero (text : List Char) : blockCommentEnd text ≠ some 0 := by
  fun_cases blockCommentEnd text with
  | case1 => simp
  | case2 => simp
  | case3 => simp

theorem closed_blockCommentEnd : Closed blockCommentEnd := by
  intro text
  fun_induction blockCommentEnd text with
  | case1 => intro taken matched; cases matched
  | case2 rest =>
      rintro taken ⟨⟩
      exact ⟨['*', '/'], rest, rfl, rfl, fun behind => rfl⟩
  | case3 char rest notEnd ih =>
      intro taken matched
      obtain ⟨further, later, rfl⟩ := Option.map_eq_some_iff.mp matched
      obtain ⟨front, tail, rfl, rfl, takes⟩ := ih further later
      refine ⟨char :: front, tail, rfl, rfl, fun behind => ?_⟩
      cases front with
      | nil => exact absurd later (blockCommentEnd_ne_zero _)
      | cons next front =>
          have goesOn (more : List Char) (star : char = '*') :
              next :: front ++ behind = '/' :: more → False := by
            rintro ⟨⟩
            exact notEnd (front ++ tail) star rfl
          rw [List.cons_append, blockCommentEnd.eq_3 _ _ goesOn, takes behind]
          rfl

theorem closed_blockComment : Closed blockComment :=
  closed_andThen (closed_exactly _) closed_blockCommentEnd

theorem munches_lineComment : Munches lineComment (· != '\n') :=
  munches_andThen (closed_exactly _) (munches_many _)

theorem starts_lineComment : Starts lineComment (· = '/') :=
  starts_andThen (starts_exactly '/' ['/'])

theorem starts_blockComment : Starts blockComment (· = '/') :=
  starts_andThen (starts_exactly '/' ['*'])

theorem starts_item : Starts item fun char => Text.isBlank char ∨ char = '/' ∨ char = '/' :=
  starts_orElse (starts_one _) (starts_orElse starts_lineComment starts_blockComment)

/-- One blank or one comment.  A line comment goes on up to the line feed, which is trivia
itself. -/
theorem item_append {front : List Char} (matched : item (front ++ rest) = some front.length)
    (notEmpty : rest ≠ [])
    (feed : rest.head? = some '\n' → behind.head? = some '\n') :
    item (front ++ behind) = some front.length := by
  rcases orElse_eq_some.mp matched with blank | ⟨noBlank, comment⟩
  · exact orElse_eq_some.mpr (.inl ((closed_one _).takes blank behind))
  · rcases orElse_eq_some.mp comment with line | ⟨-, block⟩
    · have stops := munches_lineComment.stops line
      have feedBehind : StopsAt (· != '\n') behind := by
        cases rest with
        | nil => contradiction
        | cons char rest =>
            have isFeed : char = '\n' := by simpa using stops
            intro other head
            rw [Option.mem_def.mp head, isFeed] at feed
            simpa using feed rfl
      have again := munches_lineComment.append line feedBehind
      obtain ⟨more, rfl, -⟩ := Lexeme.exists_mark line
      exact orElse_eq_some.mpr (.inr ⟨rfl, orElse_eq_some.mpr (.inl again)⟩)
    · have again := closed_blockComment.takes block behind
      obtain ⟨more, rfl, -⟩ := Lexeme.exists_mark block
      exact orElse_eq_some.mpr (.inr ⟨rfl, orElse_eq_some.mpr (.inr ⟨rfl, again⟩)⟩)

theorem length_feed : length ('\n' :: rest) ≠ 0 := by
  rw [length_item (item_blank (by decide))]
  omega

theorem length_append_item {front : List Char}
    (matched : item (front ++ behind) = some front.length) (notEmpty : front ≠ []) :
    length (front ++ behind) = front.length + length behind := by
  cases front with
  | nil => contradiction
  | cons first run =>
      rw [List.cons_append] at matched ⊢
      rw [length_item matched, List.drop_left, List.length_cons]

/-- The trivia in front of a token is complete. -/
theorem complete_of_token {text : List Char} (found : text.drop (length text) = char :: rest) :
    Complete (text.take (length text)) := by
  fun_induction length text with
  | case1 => cases found
  | case2 first text further matched ih =>
      rw [Nat.add_right_comm, List.drop_succ_cons, ← List.drop_drop] at found
      have later := ih found
      have cut := List.take_append_drop (length (text.drop further)) (text.drop further)
      rw [found] at cut
      have whole := List.take_append_drop further text
      rw [Nat.add_right_comm, List.take_succ_cons, List.take_add]
      generalize gapped : (text.drop further).take (length (text.drop further)) = gap at later cut ⊢
      rw [← cut] at whole
      have lengths : (first :: text.take further).length = further + 1 := by
        have bound : text.drop further ≠ [] := by simp [← cut]
        have less := List.length_pos_iff.mpr bound
        simp at less ⊢
        omega
      intro behind
      have feed (head : (gap ++ char :: rest).head? = some '\n') :
          (gap ++ behind).head? = some '\n' := by
        cases gap with
        | nil =>
            cases head
            rw [← cut] at gapped
            simp [length_feed] at gapped
        | cons other gap => exact head
      have again : item ((first :: text.take further) ++ (gap ++ behind)) = _ :=
        item_append (by rw [List.cons_append, whole, matched, lengths]) (by simp) feed
      rw [← List.cons_append, List.append_assoc, length_append_item again (by simp), later,
        List.length_append, Nat.add_assoc]
  | case3 => exact complete_nil

/-! No trivia begins where a token is read. -/

theorem noTrivia_of_continuesWord (goesOn : Lexeme.continuesWord char) :
    ¬(Text.isBlank char ∨ char = '/' ∨ char = '/') := by
  rintro (blank | rfl | rfl)
  · rcases (by simpa [Lexeme.continuesWord] using goesOn : char.isAlphanum ∨ char = '_') with
      alphanum | rfl
    · have bounds := Lexeme.bounds_of_isAlphanum alphanum
      simp only [Text.isBlank, Bool.or_eq_true, Bool.and_eq_true, decide_eq_true_eq,
        beq_iff_eq] at blank
      omega
    · exact absurd blank (by decide)
  all_goals exact absurd goesOn (by decide)

theorem longOperators_slash :
    ∀ operator ∈ Lexeme.longOperators, operator.toList.head? = some '/' →
      operator.toList = ['/', '='] := by
  decide

theorem item_punctuation {front : List Char}
    (matched : Lexeme.punctuation (front ++ behind) = some front.length)
    (apart : ¬Lexeme.opensComment front behind) : item (front ++ behind) = none := by
  obtain ⟨first, more, same, isShort⟩ := Lexeme.starts_punctuation _ _ matched
  obtain ⟨-, -, noBlank, -⟩ := Lexeme.of_shortOperators first (by simpa using isShort)
  by_cases slash : first = '/'
  · subst slash
    unfold Lexeme.punctuation at matched
    split at matched
    · rename_i operator found
      have known := List.mem_of_find?_eq_some found
      obtain ⟨tail, cut⟩ := List.isPrefixOf_iff_prefix.mp
        (by simpa using List.find?_some found : operator.toList.isPrefixOf (front ++ behind))
      have starts : operator.toList.head? = some '/' := by
        have long := Lexeme.two_le_length_longOperators operator known
        rw [same] at cut
        cases letters : operator.toList with
        | nil => simp [letters] at long
        | cons letter letters' =>
            rw [letters] at cut
            cases cut
            rfl
      rw [← cut, longOperators_slash operator known starts]
      rfl
    · have alone : front.length = 1 := by
        rw [same, one_cons, if_pos isShort] at matched
        exact (Option.some.inj matched).symm
      obtain ⟨other, rfl⟩ := List.length_eq_one_iff.mp alone
      cases same
      cases commented : item ('/' :: behind) with
      | none => exact commented
      | some taken => exact absurd (by simp [Lexeme.opensComment, commented]) apart
  · rw [same]
    exact starts_item.none (by simp [noBlank, slash])

theorem item_of_reads {front : List Char} {kind : TokenKind}
    (reads : Lexeme.Reads (front ++ behind) kind front.length)
    (apart : ¬Lexeme.fuses front behind) : item (front ++ behind) = none := by
  have none_of_head {first : Char} {more : List Char} (same : front ++ behind = first :: more)
      (noTrivia : ¬(Text.isBlank first ∨ first = '/' ∨ first = '/')) :
      item (front ++ behind) = none := by
    rw [same]
    exact starts_item.none noTrivia
  cases reads with
  | charLiteral matched =>
      obtain ⟨_, more, same, rfl | rfl⟩ := Lexeme.starts_charLiteral _ _ matched
      all_goals exact none_of_head same (by decide)
  | lifetime _ matched =>
      obtain ⟨_, more, same, rfl⟩ := Lexeme.starts_lifetime _ _ matched
      exact none_of_head same (by decide)
  | rawString _ _ matched =>
      obtain ⟨_, more, same, (rfl | rfl) | rfl⟩ := Lexeme.starts_rawString _ _ matched
      all_goals exact none_of_head same (by decide)
  | stringLiteral _ _ _ matched =>
      obtain ⟨_, more, same, (rfl | rfl) | rfl⟩ := Lexeme.starts_stringLiteral _ _ matched
      all_goals exact none_of_head same (by decide)
  | number _ _ _ _ matched =>
      obtain ⟨first, more, same, digit⟩ := Lexeme.starts_number _ _ matched
      have isDigit : Lexeme.isDigitOrUnderscore first := by
        simp [Lexeme.isDigitOrUnderscore, digit]
      exact none_of_head same
        (noTrivia_of_continuesWord (Lexeme.continuesWord_of_isDigitOrUnderscore isDigit))
  | identifier _ _ _ _ _ matched =>
      obtain ⟨first, more, same, starts⟩ := Lexeme.starts_identifier _ _ matched
      exact none_of_head same
        (noTrivia_of_continuesWord (Lexeme.continuesWord_of_startsWord starts))
  | punctuation _ _ _ _ _ _ matched =>
      refine item_punctuation matched fun opens => apart ?_
      simp [Lexeme.fuses, opens]

end Headfirst.Trivia
