import Headfirst.Proofs.Fusing

namespace Headfirst.Lexeme

open Pattern

/-! A token is of the first class that matches. -/

/-- The class a token is read as, and those that were tried before. -/
inductive Reads (text : List Char) : TokenKind → Nat → Prop where
  | charLiteral {taken : Nat} : charLiteral text = some taken → Reads text .literal taken
  | lifetime {taken : Nat} : charLiteral text = none → lifetime text = some taken →
      Reads text .lifetime taken
  | rawString {taken : Nat} : charLiteral text = none → lifetime text = none →
      rawString text = some taken → Reads text .literal taken
  | stringLiteral {taken : Nat} : charLiteral text = none → lifetime text = none →
      rawString text = none → stringLiteral text = some taken → Reads text .literal taken
  | number {taken : Nat} : charLiteral text = none → lifetime text = none →
      rawString text = none → stringLiteral text = none → number text = some taken →
      Reads text .literal taken
  | identifier {taken : Nat} : charLiteral text = none → lifetime text = none →
      rawString text = none → stringLiteral text = none → number text = none →
      identifier text = some taken → Reads text .ident taken
  | punctuation {taken : Nat} : charLiteral text = none → lifetime text = none →
      rawString text = none → stringLiteral text = none → number text = none →
      identifier text = none → punctuation text = some taken → Reads text .punct taken

theorem tried_eq_some {kind : TokenKind} {pattern : Pattern} {more : List (TokenKind × Pattern)}
    {text : List Char} {read : TokenKind × Nat} :
    ((kind, pattern) :: more).findSome? (fun (kind, pattern) => (pattern text).map (kind, ·)) =
        some read ↔
      (∃ taken, pattern text = some taken ∧ (kind, taken) = read) ∨
      pattern text = none ∧
        more.findSome? (fun (kind, pattern) => (pattern text).map (kind, ·)) = some read := by
  cases matched : pattern text <;> simp [matched]

theorem reads_iff {text : List Char} {kind : TokenKind} {taken : Nat} :
    Reads text kind taken ↔ first text = some (kind, taken) := by
  constructor
  · intro reads
    cases reads <;> simp [first, classes, *]
  · intro read
    simp only [first, classes, tried_eq_some, List.findSome?_nil, reduceCtorEq, and_false,
      or_false] at read
    rcases read with ⟨_, found, ⟨⟩⟩ | ⟨noChar, ⟨_, found, ⟨⟩⟩ | ⟨noLifetime, ⟨_, found, ⟨⟩⟩ |
      ⟨noRaw, ⟨_, found, ⟨⟩⟩ | ⟨noString, ⟨_, found, ⟨⟩⟩ | ⟨noNumber, ⟨_, found, ⟨⟩⟩ |
      ⟨noWord, ⟨_, found, ⟨⟩⟩⟩⟩⟩⟩⟩⟩
    · exact .charLiteral found
    · exact .lifetime noChar found
    · exact .rawString noChar noLifetime found
    · exact .stringLiteral noChar noLifetime noRaw found
    · exact .number noChar noLifetime noRaw noString found
    · exact .identifier noChar noLifetime noRaw noString noNumber found
    · exact .punctuation noChar noLifetime noRaw noString noNumber noWord found

theorem bounded_identifier : Bounded identifier :=
  bounded_orElse (munches_andThen (closed_exactly _) munches_word).bounded munches_word.bounded

theorem bounded_number : Bounded number :=
  bounded_andThen munches_digits.bounded <|
    bounded_andThen (bounded_optional munches_fraction.bounded) <|
      bounded_andThen (bounded_optional munches_exponent.bounded)
        (bounded_optional munches_word.bounded)

theorem bounded_punctuation : Bounded punctuation := by
  intro text taken matched
  unfold punctuation at matched
  split at matched
  · rename_i operator found
    obtain ⟨rest, rfl⟩ := List.isPrefixOf_iff_prefix.mp
      (by simpa using List.find?_some found : operator.toList.isPrefixOf text)
    cases matched
    rw [List.length_append, String.length_toList]
    exact Nat.le_add_right ..
  · exact (closed_one _).bounded text taken matched

theorem Reads.le_length {text : List Char} {kind : TokenKind} {taken : Nat}
    (reads : Reads text kind taken) : taken ≤ text.length := by
  cases reads with
  | charLiteral matched => exact closed_charLiteral.bounded _ _ matched
  | lifetime _ matched =>
      exact bounded_andThen (closed_exactly _).bounded bounded_identifier _ _ matched
  | rawString _ _ matched => exact closed_rawString.bounded _ _ matched
  | stringLiteral _ _ _ matched => exact closed_stringLiteral.bounded _ _ matched
  | number _ _ _ _ matched => exact bounded_number _ _ matched
  | identifier _ _ _ _ _ matched => exact bounded_identifier _ _ matched
  | punctuation _ _ _ _ _ _ matched => exact bounded_punctuation _ _ matched

/-! Where it does not fuse with what follows, a token is read as itself again. -/

section

variable {front rest behind : List Char} {char : Char} {taken : Nat}

theorem isAlpha_iff : char.isAlpha = true ↔
    (65 ≤ char.toNat ∧ char.toNat ≤ 90) ∨ (97 ≤ char.toNat ∧ char.toNat ≤ 122) := by
  have upper : char.isUpper = true ↔ 65 ≤ char.toNat ∧ char.toNat ≤ 90 := decide_eq_true_iff
  have lower : char.isLower = true ↔ 97 ≤ char.toNat ∧ char.toNat ≤ 122 := by
    change (decide _ && decide _) = true ↔ _
    rw [Bool.and_eq_true, decide_eq_true_iff, decide_eq_true_iff]
    exact Iff.rfl
  rw [← upper, ← lower, ← Bool.or_eq_true]
  exact Iff.rfl

theorem bounds_of_isAlphanum (alphanum : char.isAlphanum) :
    48 ≤ char.toNat ∧ char.toNat < 0x80 := by
  simp only [Char.isAlphanum, Bool.or_eq_true, isAlpha_iff, Char.isDigit_iff_toNat,
    Char.reduceToNat] at alphanum
  omega

theorem isWordy_of_continuesWord (goesOn : continuesWord char) : Tree.isWordy char := by
  rcases (by simpa [continuesWord] using goesOn : char.isAlphanum ∨ char = '_') with alphanum | rfl
  · simp [Tree.isWordy, Text.isAlphanumeric, (bounds_of_isAlphanum alphanum).2, alphanum]
  · rfl

theorem not_startsWord_of_isDigit (digit : char.isDigit) : ¬startsWord char := by
  intro starts
  rcases (by simpa [startsWord] using starts : char.isAlpha ∨ char = '_') with alpha | rfl
  · rw [isAlpha_iff] at alpha
    simp only [Char.isDigit_iff_toNat, Char.reduceToNat] at digit
    omega
  · exact absurd digit (by decide)

theorem starts_lifetime : Starts lifetime (· = '\'') :=
  starts_andThen (starts_exactly '\'' [])

theorem starts_number : Starts number (Char.isDigit ·) :=
  starts_andThen starts_digits

theorem starts_identifier : Starts identifier (startsWord ·) := by
  intro text taken matched
  obtain ⟨char, rest, same, starts⟩ :=
    starts_orElse (starts_andThen (starts_exactly 'r' ['#'])) starts_word text taken matched
  refine ⟨char, rest, same, ?_⟩
  rcases starts with rfl | starts
  · rfl
  · exact starts

theorem trails_identifier : Trails identifier continuesWord :=
  trails_orElse (trails_behind trails_word starts_word (andThen_ne_zero (one_ne_zero _)))
    trails_word

theorem identifier_ne_zero (text : List Char) : identifier text ≠ some 0 := by
  intro matched
  rcases orElse_eq_some.mp matched with matched | ⟨-, matched⟩
  · exact andThen_ne_zero (exactly_ne_zero _ _) text matched
  · exact andThen_ne_zero (one_ne_zero _) text matched

theorem trails_lifetime : Trails lifetime continuesWord :=
  trails_behind trails_identifier starts_identifier identifier_ne_zero

/-- A token that ends like a word stands apart from what could go on with it. -/
theorem stopsAt_of_trails {pattern : Pattern} (trails : pattern.Trails continuesWord)
    (matched : pattern (front ++ rest) = some front.length) (notEmpty : front ≠ [])
    (parted : ∀ last ∈ front.getLast?, Tree.isWordy last → StopsAt Tree.isWordy behind) :
    StopsAt Tree.isWordy behind := by
  have last := List.getLast?_eq_some_getLast notEmpty
  refine parted _ last (isWordy_of_continuesWord (trails _ _ matched _ ?_))
  rw [List.take_left]
  exact last

theorem not_startsHash {char : Char} (goesOn : continuesWord char) :
    ¬(hashedString (char :: rest)).isSome := by
  intro quoted
  obtain ⟨taken, matched⟩ := Option.isSome_iff_exists.mp quoted
  obtain ⟨_, _, ⟨⟩, rfl | rfl⟩ := starts_hashedString _ _ matched
  all_goals exact absurd goesOn (by decide)

theorem hashedString_rawWord (goesOn : continuesWord char) :
    hashedString ('#' :: char :: rest) = none := by
  have other : ¬char == '#' := by
    intro hash
    cases eq_of_beq hash
    exact absurd goesOn (by decide)
  have quoted := @hashedString_run ['#'] (char :: rest) (by simp) (by simpa using other)
  have noQuote : andThen (exactly ['"']) (rawStringEnd 1) (char :: rest) = none := by
    refine (starts_andThen (starts_exactly '"' [])).none ?_
    rintro rfl
    exact absurd goesOn (by decide)
  simpa [noQuote] using quoted

theorem exists_identifier (matched : identifier (front ++ rest) = some front.length) :
    (∃ char run, front = char :: run ∧ startsWord char ∧ ∀ other ∈ run, continuesWord other) ∨
      ∃ char run, front = 'r' :: '#' :: char :: run ∧ startsWord char := by
  rcases orElse_eq_some.mp matched with matched | ⟨-, matched⟩
  · obtain ⟨more, rfl, isWord⟩ := exists_mark matched
    obtain ⟨char, run, rfl, starts, -⟩ := exists_head_run isWord
    exact .inr ⟨char, run, rfl, starts⟩
  · exact .inl (exists_head_run matched)

theorem head?_ne {run : List Char} (all : ∀ other ∈ run, continuesWord other)
    (stops : StopsAt Tree.isWordy behind) (wordy : Tree.isWordy char)
    (ends : ¬continuesWord char) : (run ++ behind).head? ≠ some char := by
  intro head
  cases run with
  | nil => exact stops char head wordy
  | cons other run =>
      cases head
      exact ends (all char (List.mem_cons_self ..))

/-- A raw word is not the beginning of a raw string. -/
theorem reads_rawWord (starts : startsWord char)
    (matched : identifier ('r' :: '#' :: char :: rest) = some taken) :
    Reads ('r' :: '#' :: char :: rest) .ident taken := by
  have noString : ¬(hashedString ('#' :: char :: rest)).isSome := by
    simp [hashedString_rawWord (continuesWord_of_startsWord starts)]
  have noMark : ¬('r' = 'b' ∨ 'r' = 'c') := by decide
  exact .identifier (charLiteral_eq_none (by decide) fun mark => absurd mark (by decide))
    (starts_lifetime.none (by decide))
    (rawString_eq_none (fun _ => noString) fun mark => absurd mark noMark)
    (stringLiteral_eq_none (by decide) fun mark => absurd mark noMark)
    (starts_number.none (by decide)) matched

/-- Nothing but what `fuses` excludes makes a word the beginning of a literal. -/
theorem reads_identifier (matched : identifier (front ++ rest) = some front.length)
    (stops : StopsAt Tree.isWordy behind) (apartWord : ¬lengthensWord front behind)
    (apartString : ¬opensRawString front behind) :
    Reads (front ++ behind) .ident front.length := by
  have again := identifier_append matched (stops.mono fun _ => isWordy_of_continuesWord)
    fun same opens => apartWord (by simp [lengthensWord, same, opens])
  rcases exists_identifier matched with ⟨char, run, rfl, starts, all⟩ | ⟨char, run, rfl, starts⟩
  · have ne {other : Char} (ends : ¬startsWord other) : char ≠ other :=
      fun same => ends (same ▸ starts)
    refine .identifier (charLiteral_eq_none (ne (by decide)) fun _ => ?_)
      (starts_lifetime.none (ne (by decide))) (rawString_eq_none ?_ ?_)
      (stringLiteral_eq_none (ne (by decide)) fun _ => ?_)
      (starts_number.none fun digit => not_startsWord_of_isDigit digit starts) again
    · exact head?_ne all stops (by decide) (by decide)
    · rintro rfl
      cases run with
      | nil => exact fun quoted => apartString (by simpa [opensRawString] using quoted)
      | cons other run => exact not_startsHash (all other (List.mem_cons_self ..))
    · rintro mark more same
      cases run with
      | nil => exact absurd rfl (stops 'r' (by rw [show behind = 'r' :: more from same]; rfl))
      | cons other run =>
          cases same
          cases run with
          | nil =>
              intro quoted
              refine apartString ?_
              rcases mark with rfl | rfl <;> simpa [opensRawString] using quoted
          | cons third run =>
              exact not_startsHash (all third (List.mem_cons_of_mem _ (List.mem_cons_self ..)))
    · exact head?_ne all stops (by decide) (by decide)
  · exact reads_rawWord starts again

theorem reads_lifetime (matched : lifetime (front ++ rest) = some front.length)
    (stops : StopsAt Tree.isWordy behind) (apart : ¬lengthensWord front behind) :
    Reads (front ++ behind) .lifetime front.length := by
  have again := lifetime_append matched (stops.mono fun _ => isWordy_of_continuesWord)
    fun same opens => apart (by simp [lengthensWord, same, opens])
  refine .lifetime ?_ again
  obtain ⟨name, rfl, named⟩ := exists_mark matched
  cases quoted : charLiteral (['\''] ++ name ++ behind) with
  | none => rfl
  | some taken =>
      rcases exists_identifier named with ⟨char, run, rfl, starts, all⟩ | ⟨char, run, rfl, starts⟩
      · have plain : ['\'', '\\', '\r', '\n'].all (char ≠ ·) := by
          have ne {other : Char} (ends : ¬startsWord other) : char ≠ other :=
            fun same => ends (same ▸ starts)
          simp [ne (by decide : ¬startsWord '\''), ne (by decide : ¬startsWord '\\'),
            ne (by decide : ¬startsWord '\r'), ne (by decide : ¬startsWord '\n')]
        obtain ⟨more, same⟩ := charLiteral_plain quoted plain
        refine absurd ?_ (head?_ne all stops (by decide : Tree.isWordy '\'') (by decide))
        rw [show run ++ behind = '\'' :: more from same]
        rfl
      · obtain ⟨more, same⟩ := charLiteral_plain quoted (by decide)
        cases same

theorem reads_number {text : List Char} (matched : number text = some taken) :
    Reads text .literal taken := by
  obtain ⟨char, more, rfl, digit⟩ := starts_number _ _ matched
  have ne {other : Char} (ends : ¬other.isDigit) : char ≠ other :=
    fun same => ends (same ▸ digit)
  have noMark : ¬(char = 'b' ∨ char = 'c') := by
    rintro (rfl | rfl) <;> exact absurd digit (by decide)
  exact .number (charLiteral_eq_none (ne (by decide)) fun mark => absurd (.inl mark) noMark)
    (starts_lifetime.none (ne (by decide)))
    (rawString_eq_none (fun raw => absurd raw (ne (by decide))) fun mark => absurd mark noMark)
    (stringLiteral_eq_none (ne (by decide)) fun mark => absurd mark noMark) matched

theorem of_shortOperators : ∀ char ∈ shortOperators,
    ¬char.isDigit ∧ ¬startsWord char ∧ ¬Text.isBlank char ∧ char ≠ '\'' ∧ char ≠ '"' := by
  -- Over the list, so that not every character there is gets tried.
  have all : shortOperators.all fun char => decide (¬char.isDigit ∧ ¬startsWord char ∧
      ¬Text.isBlank char ∧ char ≠ '\'' ∧ char ≠ '"') := by
    decide
  exact fun char member => of_decide_eq_true (List.all_eq_true.mp all char member)

theorem reads_punctuation {text : List Char} (matched : punctuation text = some taken) :
    Reads text .punct taken := by
  obtain ⟨char, more, rfl, isShort⟩ := starts_punctuation _ _ matched
  obtain ⟨noDigit, noWord, -, noQuote, noString⟩ := of_shortOperators char (by simpa using isShort)
  have ne {letter : Char} (starts : startsWord letter) : char ≠ letter :=
    fun same => noWord (same ▸ starts)
  have noMark : ¬(char = 'b' ∨ char = 'c') := by
    rintro (rfl | rfl) <;> exact noWord (by decide)
  exact .punctuation (charLiteral_eq_none noQuote fun mark => absurd (.inl mark) noMark)
    (starts_lifetime.none noQuote)
    (rawString_eq_none (fun raw => absurd raw (ne (by decide))) fun mark => absurd mark noMark)
    (stringLiteral_eq_none noString fun mark => absurd mark noMark) (starts_number.none noDigit)
    (starts_identifier.none noWord) matched

theorem reads_rawString {text : List Char} (matched : rawString text = some taken) :
    Reads text .literal taken := by
  obtain ⟨char, more, rfl, starts⟩ := starts_rawString _ _ matched
  have noQuote : char ≠ '\'' := by
    rintro rfl
    simp at starts
  refine .rawString (charLiteral_eq_none noQuote ?_) (starts_lifetime.none noQuote) matched
  rintro rfl head
  rcases rawString_cons matched with ⟨-, _, rfl, -⟩ | ⟨mark, -⟩
  · simp at head
  · exact absurd mark (by decide)

theorem reads_stringLiteral {text : List Char} (matched : stringLiteral text = some taken) :
    Reads text .literal taken := by
  obtain ⟨char, more, rfl, starts⟩ := starts_stringLiteral _ _ matched
  have noQuote : char ≠ '\'' := by
    rintro rfl
    simp at starts
  have noRaw : char ≠ 'r' := by
    rintro rfl
    simp at starts
  have quoted (mark : char = 'b' ∨ char = 'c') : ∃ inside, more = '"' :: inside := by
    rcases stringLiteral_cons matched with ⟨-, quoted⟩ | rfl
    · exact quoted
    · simp at mark
  refine .stringLiteral (charLiteral_eq_none noQuote ?_) (starts_lifetime.none noQuote)
    (rawString_eq_none (fun raw => absurd raw noRaw) ?_) matched
  · intro mark head
    obtain ⟨inside, rfl⟩ := quoted (.inl mark)
    simp at head
  · intro mark other same
    obtain ⟨inside, rfl⟩ := quoted mark
    cases same

theorem reads_append {kind : TokenKind} (reads : Reads (front ++ rest) kind front.length)
    (notEmpty : front ≠ [])
    (parted : ∀ last ∈ front.getLast?, Tree.isWordy last → StopsAt Tree.isWordy behind)
    (apart : ¬fuses front behind) : Reads (front ++ behind) kind front.length := by
  simp only [fuses, Bool.or_eq_true, not_or] at apart
  obtain ⟨⟨⟨⟨-, apartOperator⟩, apartNumber⟩, apartWord⟩, apartString⟩ := apart
  cases reads with
  | charLiteral matched => exact .charLiteral (closed_charLiteral.takes matched behind)
  | lifetime _ matched =>
      exact reads_lifetime matched (stopsAt_of_trails trails_lifetime matched notEmpty parted)
        apartWord
  | rawString _ _ matched => exact reads_rawString (closed_rawString.takes matched behind)
  | stringLiteral _ _ _ matched =>
      exact reads_stringLiteral (closed_stringLiteral.takes matched behind)
  | number _ _ _ _ matched =>
      have stops := stopsAt_of_trails trails_number matched notEmpty parted
      exact reads_number
        (number_append matched (stops.mono fun _ => isWordy_of_continuesWord) apartNumber)
  | identifier _ _ _ _ _ matched =>
      exact reads_identifier matched (stopsAt_of_trails trails_identifier matched notEmpty parted)
        apartWord apartString
  | punctuation _ _ _ _ _ _ matched =>
      exact reads_punctuation (punctuation_append matched notEmpty apartOperator)

end

end Headfirst.Lexeme
