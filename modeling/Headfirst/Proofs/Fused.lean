import Headfirst.Proofs.Gaps

namespace Headfirst.Lexeme

open Pattern

/-! Where a token fuses with the text behind it, it is lost: what is read in its place goes on
into that text, or is a comment. -/

variable {front rest behind : List Char} {char : Char}

theorem Reads.unique {text : List Char} {kind other : TokenKind} {taken further : Nat}
    (reads : Reads text kind taken) (again : Reads text other further) :
    kind = other ∧ taken = further := by
  have same := (reads_iff.mp reads).symm.trans (reads_iff.mp again)
  simpa using same

/-- A longer token than `front` is read where `front` and the text behind it stand. -/
def Outgrown (front behind : List Char) : Prop :=
  ∃ kind taken, Reads (front ++ behind) kind taken ∧ front.length < taken

/-! Operators. -/

theorem longOperators_sorted :
    longOperators.Pairwise fun former latter => latter.length ≤ former.length := by
  decide

theorem punctuation_ge {text : List Char} {operator : String} (known : operator ∈ longOperators)
    (isPrefix : operator.toList.isPrefixOf text) :
    ∃ taken, punctuation text = some taken ∧ operator.length ≤ taken := by
  cases found : longOperators.find? (·.toList.isPrefixOf text) with
  | none => exact absurd isPrefix (List.find?_eq_none.mp found operator known)
  | some longest =>
      refine ⟨longest.length, by simp [punctuation, found], ?_⟩
      obtain ⟨-, earlier, later, split, notPrefix⟩ := List.find?_eq_some_iff_append.mp found
      have sorted := longOperators_sorted
      rw [split] at known sorted
      rcases List.mem_append.mp known with before | behind
      · have failed := notPrefix operator before
        simp [isPrefix] at failed
      · rcases List.mem_cons.mp behind with rfl | behind
        · exact Nat.le_refl _
        · exact (List.pairwise_cons.mp (List.pairwise_append.mp sorted).2.1).1 operator behind

theorem outgrown_of_lengthensOperator (longer : lengthensOperator front behind) :
    Outgrown front behind := by
  simp only [lengthensOperator, Bool.and_eq_true, List.any_eq_true, decide_eq_true_eq] at longer
  obtain ⟨-, operator, known, longer, isPrefix⟩ := longer
  obtain ⟨taken, matched, least⟩ := punctuation_ge known isPrefix
  exact ⟨.punct, taken, reads_punctuation matched, by omega⟩

/-! Raw words and raw strings. -/

theorem exists_word (starts : startsWord char) :
    ∃ further, word (char :: rest) = some (1 + further) :=
  ⟨_, andThen_eq_some.mpr ⟨1, _, by rw [one_cons, if_pos starts], rfl, rfl⟩⟩

theorem exists_rawWord (opens : opensRawWord behind) :
    ∃ char more further, behind = '#' :: char :: more ∧ startsWord char ∧
      identifier ('r' :: behind) = some (3 + further) := by
  unfold opensRawWord at opens
  split at opens
  · rename_i char more
    obtain ⟨further, isWord⟩ := @exists_word more char opens
    have raw : rawWord ('r' :: '#' :: char :: more) = some (2 + (1 + further)) :=
      andThen_eq_some.mpr ⟨2, _, rfl, isWord, rfl⟩
    refine ⟨char, more, further, rfl, opens, orElse_eq_some.mpr (.inl ?_)⟩
    rw [show 3 + further = 2 + (1 + further) by omega]
    exact raw
  · cases opens

theorem outgrown_of_lengthensWord (raw : lengthensWord front behind) : Outgrown front behind := by
  simp only [lengthensWord, Bool.and_eq_true, Bool.or_eq_true, beq_iff_eq] at raw
  obtain ⟨isMark, opens⟩ := raw
  obtain ⟨char, more, further, rfl, starts, matched⟩ := exists_rawWord opens
  rcases isMark with rfl | rfl
  · exact ⟨.ident, _, reads_rawWord starts matched, by simp; omega⟩
  · have noLiteral : charLiteral ('\'' :: 'r' :: '#' :: char :: more) = none := by
      cases quoted : charLiteral ('\'' :: 'r' :: '#' :: char :: more) with
      | none => rfl
      | some taken =>
          obtain ⟨_, same⟩ := charLiteral_plain quoted (by decide)
          cases same
    have found : lifetime ('\'' :: 'r' :: '#' :: char :: more) = some (1 + (3 + further)) :=
      andThen_eq_some.mpr ⟨1, _, rfl, matched, rfl⟩
    exact ⟨.lifetime, _, .lifetime noLiteral found, by simp; omega⟩

theorem hashedString_ne_zero (text : List Char) : hashedString text ≠ some 0 := by
  intro matched
  obtain ⟨run, rest, rfl, -, all, stop⟩ := exists_run (· == '#') text
  rw [hashedString_run all stop] at matched
  obtain ⟨further, quoted, length⟩ := Option.map_eq_some_iff.mp matched
  obtain rfl : further = 0 := by omega
  exact andThen_ne_zero (exactly_ne_zero _ _) rest quoted

theorem outgrown_of_opensRawString (raw : opensRawString front behind) :
    Outgrown front behind := by
  simp only [opensRawString, Bool.and_eq_true, List.contains_iff_mem, List.mem_cons,
    List.not_mem_nil, or_false] at raw
  obtain ⟨isMark, quoted⟩ := raw
  obtain ⟨further, quoted⟩ := Option.isSome_iff_exists.mp quoted
  have positive : further ≠ 0 := fun zero => hashedString_ne_zero behind (zero ▸ quoted)
  have marked : andThen (exactly ['r']) hashedString ('r' :: behind) = some (1 + further) :=
    andThen_eq_some.mpr ⟨1, further, rfl, quoted, rfl⟩
  rcases isMark with rfl | rfl | rfl
  · exact ⟨.literal, _, reads_rawString (andThen_eq_some.mpr ⟨0, _, rfl, marked, rfl⟩),
      by simp; omega⟩
  · exact ⟨.literal, _, reads_rawString (andThen_eq_some.mpr ⟨1, _, rfl, marked, rfl⟩),
      by simp; omega⟩
  · exact ⟨.literal, _, reads_rawString (andThen_eq_some.mpr ⟨1, _, rfl, marked, rfl⟩),
      by simp; omega⟩

/-! Numbers. -/

theorem exists_optional (pattern : Pattern) (text : List Char) :
    ∃ taken, optional pattern text = some taken := by
  cases matched : pattern text with
  | none => exact ⟨0, optional_of_none matched⟩
  | some taken => exact ⟨taken, optional_eq_some.mpr (.inl matched)⟩

theorem exists_behindFraction (text : List Char) : ∃ taken, behindFraction text = some taken := by
  obtain ⟨ahead, first⟩ := exists_optional exponent text
  obtain ⟨further, later⟩ := exists_optional word (text.drop ahead)
  exact ⟨_, andThen_eq_some.mpr ⟨ahead, further, first, later, rfl⟩⟩

theorem exists_digits (digit : char.isDigit) :
    ∃ further, digits (char :: rest) = some (1 + further) :=
  ⟨_, andThen_eq_some.mpr ⟨1, _, by rw [one_cons, if_pos digit], rfl, rfl⟩⟩

theorem exists_fraction (opens : opensFraction behind) :
    ∃ further, fraction behind = some (1 + further) ∧ StopsAt isDigitOrUnderscore behind := by
  unfold opensFraction at opens
  split at opens
  · rename_i char more
    obtain ⟨further, matched⟩ := @exists_digits more char opens
    exact ⟨_, andThen_eq_some.mpr ⟨1, _, rfl, matched, rfl⟩, by rw [stopsAt_cons]; decide⟩
  · cases opens

/-- Digits that a fraction follows. -/
theorem outgrown_of_opensFraction {run : List Char} (digit : char.isDigit)
    (all : ∀ other ∈ run, isDigitOrUnderscore other) (opens : opensFraction behind) :
    Outgrown (char :: run) behind := by
  obtain ⟨ahead, point, stops⟩ := exists_fraction opens
  obtain ⟨further, later⟩ := exists_behindFraction (behind.drop (1 + ahead))
  have whole : digits (char :: run ++ behind) = some (char :: run).length :=
    andThen_eq_some.mpr ⟨1, run.length, by rw [List.cons_append, one_cons, if_pos digit],
      many_run all stops, Nat.add_comm ..⟩
  have rest : behindDigits behind = some (1 + ahead + further) :=
    andThen_eq_some.mpr ⟨_, _, optional_eq_some.mpr (.inl point), later, rfl⟩
  exact ⟨.literal, _, reads_number (andThen_append whole rest), by omega⟩

theorem exists_exponent {mark : Char} (isMark : isExponentMark mark)
    (opens : opensExponent behind) :
    ∃ further, exponent (mark :: behind) = some (2 + further) := by
  unfold opensExponent at opens
  split at opens
  · rename_i sign char more
    obtain ⟨isSign, digit⟩ := Bool.and_eq_true_iff.mp opens
    obtain ⟨further, matched⟩ := @exists_several isDigitOrUnderscore char more digit
    have signFirst :
        one (fun char => char == '+' || char == '-') (sign :: char :: more) = some 1 := by
      rw [one_cons, if_pos isSign]
    have signed : signedDigits (sign :: char :: more) = some (1 + further) :=
      andThen_eq_some.mpr ⟨1, further, optional_eq_some.mpr (.inl signFirst), matched, rfl⟩
    exact ⟨further, andThen_eq_some.mpr ⟨1, _, by rw [one_cons, if_pos isMark], signed, by omega⟩⟩
  · cases opens

theorem not_isNumeric_of_isExponentMark (isMark : isExponentMark char) : ¬isNumeric char := by
  rcases (by simpa [isExponentMark] using isMark : char = 'e' ∨ char = 'E') with rfl | rfl
  all_goals decide

/-- What stands behind the digits of a number, and ends in the mark of an exponent behind
digits and points, is the mark alone. -/
theorem eq_nil_of_behindFraction {left : List Char} {mark : Char}
    (matched : behindFraction (left ++ mark :: rest) = some (left.length + 1))
    (stops : StopsAt isDigitOrUnderscore (left ++ mark :: rest))
    (numeric : ∀ other ∈ left, isNumeric other) : left = [] := by
  cases left with
  | nil => rfl
  | cons first more =>
      have numericFirst := numeric first (List.mem_cons_self ..)
      have noDigit : ¬isDigitOrUnderscore first := stops first rfl
      obtain ⟨ahead, further, exponential, later, length⟩ := andThen_eq_some.mp matched
      rcases optional_eq_some.mp exponential with found | ⟨-, rfl⟩
      · obtain ⟨_, _, ⟨⟩, isMark⟩ := starts_exponent _ _ found
        exact absurd numericFirst (not_isNumeric_of_isExponentMark isMark)
      · rcases optional_eq_some.mp later with found | ⟨-, rfl⟩
        · obtain ⟨_, _, ⟨⟩, starts⟩ := starts_word _ _ found
          have point : first = '.' := by simpa [isNumeric, noDigit] using numericFirst
          rw [point] at starts
          exact absurd starts (by decide)
        · simp at length

theorem exists_before_mark {run left tail : List Char} {mark : Char}
    (same : left ++ mark :: rest = run ++ tail) (other : mark ∉ run) :
    ∃ middle, left = run ++ middle ∧ tail = middle ++ mark :: rest := by
  rcases List.append_eq_append_iff.mp same with ⟨more, rfl, starts⟩ | ⟨middle, cut⟩
  · cases more with
    | nil => exact ⟨[], by simp, by simpa using starts.symm⟩
    | cons first more =>
        cases starts
        exact absurd (List.mem_append_right left (List.mem_cons_self ..)) other
  · exact ⟨middle, cut⟩

theorem behindFraction_mark {mark : Char} (isMark : isExponentMark mark)
    (opens : opensExponent behind) :
    ∃ further, behindFraction (mark :: behind) = some (2 + further) := by
  obtain ⟨ahead, found⟩ := exists_exponent isMark opens
  obtain ⟨further, later⟩ := exists_optional word ((mark :: behind).drop (2 + ahead))
  exact ⟨ahead + further, andThen_eq_some.mpr
    ⟨_, _, optional_eq_some.mpr (.inl found), later, by omega⟩⟩

/-- A number whose suffix is the mark of an exponent, in front of a sign and digits. -/
theorem outgrown_of_opensExponent {left : List Char} {mark : Char}
    (matched : number (left ++ mark :: rest) = some (left.length + 1))
    (numeric : ∀ other ∈ left, isNumeric other) (isMark : isExponentMark mark)
    (opens : opensExponent behind) : Outgrown (left ++ [mark]) behind := by
  have noDigit : ¬isDigitOrUnderscore mark := fun digit =>
    not_isNumeric_of_isExponentMark isMark (by simp [isNumeric, digit])
  have noPoint : mark ≠ '.' := by
    rintro rfl
    exact absurd isMark (by decide)
  obtain ⟨last, exponential⟩ := behindFraction_mark isMark opens
  rw [number_eq] at matched
  obtain ⟨_, further, first, later, length⟩ := andThen_eq_some.mp matched
  obtain ⟨whole, tail, same, rfl, ends, takes⟩ := munches_digits _ _ first
  rw [same] at first later
  obtain ⟨middle, rfl, rfl⟩ := exists_before_mark same fun member =>
    noDigit (numeric_digits first mark member)
  rw [List.drop_left] at later
  have numericMiddle : ∀ other ∈ middle, isNumeric other := fun other member =>
    numeric other (List.mem_append_right whole member)
  have stops : StopsAt isDigitOrUnderscore (mark :: behind) := by simpa using noDigit
  obtain ⟨_, further, point, later, length'⟩ := andThen_eq_some.mp later
  simp only [List.length_append] at length
  rcases optional_eq_some.mp point with found | ⟨failed, rfl⟩
  · obtain ⟨decimals, tail, same, rfl, ends', takes'⟩ := munches_fraction _ _ found
    rw [same] at found later
    obtain ⟨rest', rfl, rfl⟩ := exists_before_mark same fun member => by
      have numericMark := numeric_fraction found mark member
      simp [isNumeric, noDigit, noPoint] at numericMark
    rw [List.drop_left] at later
    simp only [List.length_append] at length
    obtain rfl : further = rest'.length + 1 := by omega
    obtain rfl := eq_nil_of_behindFraction later ends' fun other member =>
      numericMiddle other (List.mem_append_right decimals member)
    have fractional := optional_eq_some.mpr (.inl (takes' _ stops))
    have point : StopsAt isDigitOrUnderscore (decimals ++ mark :: rest) := by simpa using ends
    have again : number (whole ++ (decimals ++ mark :: behind)) = _ :=
      andThen_append (takes _ (point.append stops)) (andThen_append fractional exponential)
    refine ⟨.literal, _, by simpa using reads_number again, ?_⟩
    simp only [List.append_nil, List.length_append, List.length_singleton]
    omega
  · rw [List.drop_zero] at later
    obtain rfl : further = middle.length + 1 := by omega
    obtain rfl := eq_nil_of_behindFraction later ends numericMiddle
    have noFraction : optional fraction (mark :: behind) = some 0 :=
      optional_of_none (starts_fraction.none noPoint)
    have again : number (whole ++ mark :: behind) = _ :=
      andThen_append (takes _ stops) (andThen_eq_some.mpr ⟨0, _, noFraction, exponential, rfl⟩)
    refine ⟨.literal, _, by simpa using reads_number again, ?_⟩
    simp only [List.append_nil, List.length_append, List.length_singleton]
    omega

/-- What begins with a digit is read as a number. -/
theorem exists_number (digit : char.isDigit) : ∃ taken, number (char :: rest) = some taken := by
  obtain ⟨whole, first⟩ := @exists_digits rest char digit
  obtain ⟨ahead, point⟩ := exists_optional fraction ((char :: rest).drop (1 + whole))
  obtain ⟨further, later⟩ :=
    exists_behindFraction (((char :: rest).drop (1 + whole)).drop ahead)
  exact ⟨_, andThen_eq_some.mpr ⟨_, _, first, andThen_eq_some.mpr ⟨_, _, point, later, rfl⟩, rfl⟩⟩

theorem outgrown_of_lengthensNumber {kind : TokenKind}
    (reads : Reads (front ++ rest) kind front.length) (longer : lengthensNumber front behind) :
    Outgrown front behind := by
  simp only [lengthensNumber, Bool.and_eq_true, Bool.or_eq_true, List.all_eq_true] at longer
  obtain ⟨digit, longer⟩ := longer
  cases front with
  | nil => cases digit
  | cons char run =>
      rcases longer with ⟨all, opens⟩ | ⟨⟨numeric, isMark⟩, opens⟩
      · exact outgrown_of_opensFraction digit
          (fun other member => all other (List.mem_cons_of_mem _ member)) opens
      · obtain ⟨mark, last, isMark⟩ := (Option.any_eq_true ..).mp isMark
        obtain ⟨left, same⟩ := List.getLast?_eq_some_iff.mp last
        obtain ⟨taken, matched⟩ := @exists_number (run ++ rest) char digit
        obtain rfl := (reads.unique (reads_number matched)).2
        have whole : number (left ++ mark :: rest) = some (left.length + 1) := by
          rw [← List.cons_append, same] at matched
          simpa using matched
        rw [same] at numeric ⊢
        refine outgrown_of_opensExponent whole (fun other member => ?_) isMark opens
        exact numeric other (by simpa using member)

/-- A token fuses with the text behind it only where it is lost. -/
theorem outgrown_of_fuses {kind : TokenKind} (reads : Reads (front ++ rest) kind front.length)
    (fused : fuses front behind) :
    (Trivia.item (front ++ behind)).isSome ∨ Outgrown front behind := by
  simp only [fuses, Bool.or_eq_true] at fused
  rcases fused with (((comment | operator) | longer) | raw) | raw
  · simp only [opensComment, Bool.and_eq_true, beq_iff_eq] at comment
    obtain ⟨rfl, found⟩ := comment
    exact .inl found
  · exact .inr (outgrown_of_lengthensOperator operator)
  · exact .inr (outgrown_of_lengthensNumber reads longer)
  · exact .inr (outgrown_of_lengthensWord raw)
  · exact .inr (outgrown_of_opensRawString raw)

/-- What fuses with the text behind it is exactly what is not read as itself there. -/
theorem reads_iff_not_fuses {kind : TokenKind} (reads : Reads (front ++ rest) kind front.length)
    (notEmpty : front ≠ [])
    (parted : ∀ last ∈ front.getLast?, Tree.isWordy last → StopsAt Tree.isWordy behind) :
    Reads (front ++ behind) kind front.length ∧ Trivia.item (front ++ behind) = none ↔
      ¬fuses front behind := by
  constructor
  · rintro ⟨again, noTrivia⟩ fused
    rcases outgrown_of_fuses reads fused with comment | ⟨_, taken, longer, less⟩
    · simp [noTrivia] at comment
    · have same := (again.unique longer).2
      omega
  · intro apart
    have again := reads_append reads notEmpty parted apart
    exact ⟨again, Trivia.item_of_reads again apart⟩

end Headfirst.Lexeme
