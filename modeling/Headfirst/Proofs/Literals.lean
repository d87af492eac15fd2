import Headfirst.Proofs.Patterns

namespace Headfirst.Lexeme

open Pattern

/-! Literals in quotation marks end by themselves. -/

theorem closed_bracedCode : Closed bracedCode := by
  intro text taken matched
  unfold bracedCode at matched
  split at matched
  · rename_i rest
    obtain ⟨run, after, rfl, taking, all, stop⟩ :=
      exists_run (fun char => isHexDigit char || char == '_') rest
    rw [taking] at matched
    split at matched
    · cases matched
    · rename_i digits length
      have length : run.length = digits + 1 := length
      split at matched
      · rename_i closes
        obtain ⟨few, close⟩ := closes
        rw [← length, List.getElem?_append_right (Nat.le_refl _), Nat.sub_self] at close
        obtain ⟨tail, rfl⟩ : ∃ tail, after = '\x7d' :: tail := by
          cases after with
          | nil => simp at close
          | cons char tail => exact ⟨tail, by simpa using close⟩
        refine ⟨'\x7b' :: (run ++ ['\x7d']), tail, by simp, ?_, fun behind => ?_⟩
        · cases matched
          simp [length]
        · have again : (run ++ '\x7d' :: behind).takeWhile
              (fun char => isHexDigit char || char == '_') = run :=
            takeWhile_run all (by simp [isHexDigit])
          simp [bracedCode, again, length, few]
      · cases matched
  · cases matched

theorem closed_charEscape : Closed charEscape := by
  refine closed_orElse ?_ (closed_orElse ?_ (closed_one _) (starts_andThen (starts_exactly 'u' []))
    (starts_one _) ?_) (starts_andThen (starts_exactly 'x' []))
    (starts_orElse (starts_andThen (starts_exactly 'u' [])) (starts_one _)) ?_
  · exact closed_andThen (closed_exactly _) (closed_andThen (closed_one _) (closed_one _))
  · exact closed_andThen (closed_exactly _) closed_bracedCode
  · rintro char escaped rfl
    revert escaped
    decide
  · rintro char escaped rfl
    revert escaped
    decide

theorem starts_quote {rest : Pattern} : (andThen (exactly ['\'']) rest).Starts (· = '\'') :=
  starts_andThen (starts_exactly '\'' [])

theorem closed_charLiteral : Closed charLiteral := by
  refine closed_optional_andThen (closed_exactly _) (closed_andThen (closed_exactly _)
    (closed_andThen ?_ (closed_exactly _))) (starts_exactly 'b' []) starts_quote ?_
  · refine closed_orElse (closed_one _) (closed_andThen (closed_exactly _) closed_charEscape)
      (starts_one _) (starts_andThen (starts_exactly '\\' [])) ?_
    rintro char rfl
    decide
  · rintro char rfl
    decide

theorem starts_charLiteral : Starts charLiteral fun char => char = 'b' ∨ char = '\'' :=
  starts_optional_andThen (starts_exactly 'b' []) starts_quote

theorem lt_of_rawStringEnd {hashes : Nat} {text : List Char} {taken : Nat}
    (matched : rawStringEnd hashes text = some taken) : hashes < taken := by
  induction text generalizing taken with
  | nil => cases matched
  | cons char rest ih =>
      rw [rawStringEnd] at matched
      split at matched
      · cases matched
        omega
      · obtain ⟨further, later, rfl⟩ := Option.map_eq_some_iff.mp matched
        exact Nat.lt_succ_of_lt (ih later)

theorem closed_rawStringEnd (hashes : Nat) : Closed (rawStringEnd hashes) := by
  intro text
  induction text with
  | nil => intro taken matched; cases matched
  | cons char rest ih =>
      intro taken matched
      rw [rawStringEnd] at matched
      split at matched
      · rename_i ends
        obtain ⟨rfl, isPrefix⟩ := ends
        obtain ⟨tail, rfl⟩ := List.isPrefixOf_iff_prefix.mp isPrefix
        refine ⟨'"' :: List.replicate hashes '#', tail, rfl, ?_, fun behind => ?_⟩
        · cases matched
          simp [Nat.add_comm]
        · simp [rawStringEnd, Nat.add_comm]
      · rename_i goesOn
        obtain ⟨further, later, rfl⟩ := Option.map_eq_some_iff.mp matched
        obtain ⟨front, tail, rfl, rfl, takes⟩ := ih further later
        refine ⟨char :: front, tail, rfl, rfl, fun behind => ?_⟩
        -- The hash signs that would end the string earlier lie within what it takes.
        have goesOn : ¬(char = '"' ∧ (List.replicate hashes '#').isPrefixOf (front ++ behind)) := by
          rintro ⟨rfl, ends⟩
          refine goesOn ⟨rfl, List.isPrefixOf_iff_prefix.mpr ?_⟩
          have within : List.replicate hashes '#' <+: front :=
            List.prefix_of_prefix_length_le (List.isPrefixOf_iff_prefix.mp ends)
              (List.prefix_append front behind)
              (by simpa using Nat.le_of_lt (lt_of_rawStringEnd later))
          exact within.trans (List.prefix_append front tail)
        rw [List.cons_append, rawStringEnd, if_neg goesOn, takes behind]
        rfl

/-- The quoted part of a raw string with so many hash signs around it. -/
theorem hashedString_run {run rest : List Char} (all : ∀ char ∈ run, char == '#')
    (stops : StopsAt (· == '#') rest) :
    hashedString (run ++ rest) =
      (andThen (exactly ['"']) (rawStringEnd run.length) rest).map (run.length + ·) := by
  simp only [hashedString, takeWhile_run all stops, andThen, many_run all stops, List.drop_left]
  cases exactly ['"'] rest with
  | none => rfl
  | some taken =>
      simp [← List.drop_drop, Function.comp_def, Nat.add_assoc]

theorem closed_hashedString : Closed hashedString := by
  intro text taken matched
  obtain ⟨run, rest, rfl, -, all, stop⟩ := exists_run (· == '#') text
  rw [hashedString_run all stop] at matched
  obtain ⟨further, quoted, rfl⟩ := Option.map_eq_some_iff.mp matched
  have closed : Closed (andThen (exactly ['"']) (rawStringEnd run.length)) :=
    closed_andThen (closed_exactly _) (closed_rawStringEnd _)
  obtain ⟨front, tail, rfl, rfl, takes⟩ := closed rest further quoted
  refine ⟨run ++ front, tail, (List.append_assoc ..).symm, List.length_append.symm,
    fun behind => ?_⟩
  have quote : StopsAt (· == '#') (front ++ behind) := by
    obtain ⟨_, _, starts, rfl⟩ := starts_andThen (starts_exactly '"' []) _ _ (takes behind)
    simp [starts]
  rw [List.append_assoc, hashedString_run all quote, takes behind]
  simp

theorem starts_hashedString : Starts hashedString fun char => char = '#' ∨ char = '"' := by
  intro text taken matched
  obtain ⟨run, rest, rfl, -, all, stop⟩ := exists_run (· == '#') text
  rw [hashedString_run all stop] at matched
  obtain ⟨further, quoted, -⟩ := Option.map_eq_some_iff.mp matched
  obtain ⟨_, tail, rfl, rfl⟩ := starts_andThen (starts_exactly '"' []) _ _ quoted
  cases run with
  | nil => exact ⟨'"', tail, rfl, .inr rfl⟩
  | cons char run => exact ⟨char, _, rfl, .inl (by simpa using all char)⟩

theorem starts_stringMark : Starts (.one fun char => char == 'b' || char == 'c')
    fun char => char = 'b' ∨ char = 'c' := by
  intro text taken matched
  obtain ⟨char, rest, same, accepted⟩ := starts_one _ _ _ matched
  exact ⟨char, rest, same, by simpa using accepted⟩

theorem closed_rawString : Closed rawString := by
  refine closed_optional_andThen (closed_one _)
    (closed_andThen (closed_exactly _) closed_hashedString) starts_stringMark
    (starts_andThen (starts_exactly 'r' [])) ?_
  rintro char rfl
  decide

theorem starts_rawString : Starts rawString fun char => (char = 'b' ∨ char = 'c') ∨ char = 'r' :=
  starts_optional_andThen starts_stringMark (starts_andThen (starts_exactly 'r' []))

theorem closed_stringEnd : Closed stringEnd := by
  intro text
  fun_induction stringEnd text with
  | case1 => intro taken matched; cases matched
  | case2 rest =>
      rintro taken ⟨⟩
      exact ⟨['"'], rest, rfl, rfl, fun behind => rfl⟩
  | case3 char rest ih =>
      intro taken matched
      obtain ⟨further, later, rfl⟩ := Option.map_eq_some_iff.mp matched
      obtain ⟨front, tail, rfl, rfl, takes⟩ := ih further later
      refine ⟨'\\' :: char :: front, tail, rfl, rfl, fun behind => ?_⟩
      simp [stringEnd, takes behind]
  | case4 char rest notQuote notEscape ih =>
      intro taken matched
      obtain ⟨further, later, rfl⟩ := Option.map_eq_some_iff.mp matched
      have notBackslash : char ≠ '\\' := by
        rintro rfl
        cases rest with
        | nil => cases later
        | cons next rest => exact notEscape next rest rfl rfl
      obtain ⟨front, tail, rfl, rfl, takes⟩ := ih further later
      refine ⟨char :: front, tail, rfl, rfl, fun behind => ?_⟩
      rw [List.cons_append, stringEnd.eq_4 _ _ notQuote (fun _ _ same _ => notBackslash same),
        takes behind]
      rfl

theorem closed_stringLiteral : Closed stringLiteral := by
  refine closed_optional_andThen (closed_one _)
    (closed_andThen (closed_exactly _) closed_stringEnd) starts_stringMark
    (starts_andThen (starts_exactly '"' [])) ?_
  rintro char rfl
  decide

theorem starts_stringLiteral :
    Starts stringLiteral fun char => (char = 'b' ∨ char = 'c') ∨ char = '"' :=
  starts_optional_andThen starts_stringMark (starts_andThen (starts_exactly '"' []))

/-! The first characters of the literals. -/

section

variable {char : Char} {rest : List Char} {taken : Nat}

theorem charLiteral_cons (matched : charLiteral (char :: rest) = some taken) :
    (char = 'b' ∧ ∃ more, rest = '\'' :: more) ∨ char = '\'' := by
  rcases optional_andThen_eq_some matched with ⟨ahead, further, mark, quoted⟩ | quoted
  · obtain ⟨rfl, tail, same⟩ := eq_append_of_exactly mark
    cases same
    obtain ⟨_, more, same, rfl⟩ := starts_quote _ _ quoted
    exact .inl ⟨rfl, more, same⟩
  · exact .inr (eq_cons_of_exactly quoted).1

/-- In a literal, a quotation mark follows a plain character. -/
theorem charLiteral_plain {plain : Char}
    (matched : charLiteral ('\'' :: plain :: rest) = some taken)
    (isPlain : ['\'', '\\', '\r', '\n'].all (plain ≠ ·)) : ∃ more, rest = '\'' :: more := by
  rcases optional_andThen_eq_some matched with ⟨ahead, further, mark, -⟩ | quoted
  · obtain ⟨-, tail, same⟩ := eq_append_of_exactly mark
    cases same
  · obtain ⟨-, further, inside⟩ := eq_cons_of_exactly quoted
    obtain ⟨ahead, further, letter, quote, -⟩ := andThen_eq_some.mp inside
    have single : ahead = 1 := by
      rcases orElse_eq_some.mp letter with letter | ⟨none, -⟩
      · rw [one_cons, if_pos isPlain] at letter
        exact (Option.some.inj letter).symm
      · rw [one_cons, if_pos isPlain] at none
        cases none
    subst single
    obtain ⟨-, more, same⟩ := eq_append_of_exactly quote
    exact ⟨more, same⟩

theorem stringMark_cons {further : Nat} {pattern : Pattern} {ahead : Nat}
    (mark : one (fun char => char == 'b' || char == 'c') (char :: rest) = some ahead)
    (later : pattern ((char :: rest).drop ahead) = some further) :
    (char = 'b' ∨ char = 'c') ∧ pattern rest = some further := by
  obtain ⟨_, _, ⟨⟩, isMark⟩ := starts_stringMark _ _ mark
  have single : ahead = 1 := by
    rcases isMark with rfl | rfl <;> exact (Option.some.inj mark).symm
  subst single
  exact ⟨isMark, later⟩

theorem rawString_cons (matched : rawString (char :: rest) = some taken) :
    ((char = 'b' ∨ char = 'c') ∧ ∃ more, rest = 'r' :: more ∧ (hashedString more).isSome) ∨
      char = 'r' ∧ (hashedString rest).isSome := by
  rcases optional_andThen_eq_some matched with ⟨ahead, further, mark, later⟩ | later
  · obtain ⟨isMark, later⟩ := stringMark_cons mark later
    obtain ⟨other, more, rfl, rfl⟩ := starts_andThen (starts_exactly 'r' []) _ _ later
    obtain ⟨-, further, quoted⟩ := eq_cons_of_exactly later
    exact .inl ⟨isMark, more, rfl, Option.isSome_of_eq_some quoted⟩
  · obtain ⟨rfl, further, quoted⟩ := eq_cons_of_exactly later
    exact .inr ⟨rfl, Option.isSome_of_eq_some quoted⟩

theorem stringLiteral_cons (matched : stringLiteral (char :: rest) = some taken) :
    ((char = 'b' ∨ char = 'c') ∧ ∃ more, rest = '"' :: more) ∨ char = '"' := by
  rcases optional_andThen_eq_some matched with ⟨ahead, further, mark, later⟩ | later
  · obtain ⟨isMark, later⟩ := stringMark_cons mark later
    obtain ⟨other, more, rfl, rfl⟩ := starts_andThen (starts_exactly '"' []) _ _ later
    exact .inl ⟨isMark, more, rfl⟩
  · exact .inr (eq_cons_of_exactly later).1

theorem charLiteral_eq_none (noQuote : char ≠ '\'')
    (noMark : char = 'b' → rest.head? ≠ some '\'') : charLiteral (char :: rest) = none := by
  cases matched : charLiteral (char :: rest) with
  | none => rfl
  | some taken =>
      rcases charLiteral_cons matched with ⟨rfl, more, rfl⟩ | rfl
      · exact absurd rfl (noMark rfl)
      · exact absurd rfl noQuote

theorem rawString_eq_none (noRaw : char = 'r' → ¬(hashedString rest).isSome)
    (noMark : char = 'b' ∨ char = 'c' → ∀ more, rest = 'r' :: more → ¬(hashedString more).isSome) :
    rawString (char :: rest) = none := by
  cases matched : rawString (char :: rest) with
  | none => rfl
  | some taken =>
      rcases rawString_cons matched with ⟨mark, more, rfl, quoted⟩ | ⟨rfl, quoted⟩
      · exact absurd quoted (noMark mark more rfl)
      · exact absurd quoted (noRaw rfl)

theorem stringLiteral_eq_none (noQuote : char ≠ '"')
    (noMark : char = 'b' ∨ char = 'c' → rest.head? ≠ some '"') :
    stringLiteral (char :: rest) = none := by
  cases matched : stringLiteral (char :: rest) with
  | none => rfl
  | some taken =>
      rcases stringLiteral_cons matched with ⟨mark, more, rfl⟩ | rfl
      · exact absurd rfl (noMark mark)
      · exact absurd rfl noQuote

end

end Headfirst.Lexeme
