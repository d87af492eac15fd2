import Headfirst.Lexeme.Trivia
import Headfirst.Proofs.Literals
import Headfirst.Tree.Print

namespace Headfirst.Lexeme

open Pattern

/-! What keeps a token from being read as itself where other text follows it than before. -/

def opensComment (text behind : List Char) : Bool :=
  text == ['/'] && (Trivia.item ('/' :: behind)).isSome

/-- A longer operator begins where the text stands. -/
def lengthensOperator (text behind : List Char) : Bool :=
  !text.isEmpty && longOperators.any fun operator =>
    text.length < operator.length && operator.toList.isPrefixOf (text ++ behind)

def opensFraction : List Char → Bool
  | '.' :: char :: _ => char.isDigit
  | _ => false

def opensExponent : List Char → Bool
  | sign :: char :: _ => (sign == '+' || sign == '-') && isDigitOrUnderscore char
  | _ => false

def isExponentMark (char : Char) : Bool :=
  char == 'e' || char == 'E'

/-- What a number is made of in front of its exponent and its suffix. -/
def isNumeric (char : Char) : Bool :=
  isDigitOrUnderscore char || char == '.'

/-- Digits before a fraction, or a number whose suffix is the mark of an exponent before a
sign and digits. -/
def lengthensNumber (text behind : List Char) : Bool :=
  text.head?.any Char.isDigit &&
    (text.all isDigitOrUnderscore && opensFraction behind ||
      text.dropLast.all isNumeric && text.getLast?.any isExponentMark && opensExponent behind)

def opensRawWord : List Char → Bool
  | '#' :: char :: _ => startsWord char
  | _ => false

def lengthensWord (text behind : List Char) : Bool :=
  (text == ['r'] || text == ['\'', 'r']) && opensRawWord behind

def opensRawString (text behind : List Char) : Bool :=
  [['r'], ['b', 'r'], ['c', 'r']].contains text && (hashedString behind).isSome

/-- The token `text` is not read as itself in front of the text `behind`. -/
def fuses (text behind : List Char) : Bool :=
  opensComment text behind || lengthensOperator text behind || lengthensNumber text behind ||
    lengthensWord text behind || opensRawString text behind

/-! Words and numbers end where no more characters of theirs follow. -/

section

variable {front rest behind : List Char}

theorem exists_head_run {head kind : Char → Bool}
    (matched : andThen (.one head) (.many kind) (front ++ rest) = some front.length) :
    ∃ char run, front = char :: run ∧ head char ∧ ∀ other ∈ run, kind other := by
  obtain ⟨ahead, further, first, second, length⟩ := andThen_eq_some.mp matched
  obtain ⟨char, tail, starts, accepted⟩ := starts_one head _ _ first
  have one_ahead : ahead = 1 := by simpa [starts, one, accepted, eq_comm] using first
  subst one_ahead
  cases front with
  | nil =>
      rw [List.length_nil] at length
      omega
  | cons other run =>
      cases starts
      refine ⟨char, run, rfl, accepted, ?_⟩
      obtain ⟨run', rest', same, taking, all, -⟩ := exists_run kind (run ++ rest)
      have lengths : run'.length = further := by simpa [many, taking] using second
      rw [List.length_cons] at length
      obtain ⟨rfl, -⟩ := List.append_inj same (by omega)
      exact all

theorem munches_word : Munches word continuesWord :=
  munches_andThen (closed_one _) (munches_many _)

theorem starts_word : Starts word (startsWord ·) :=
  starts_andThen (starts_one _)

theorem continuesWord_of_startsWord {char : Char} (starts : startsWord char) :
    continuesWord char := by
  simp only [startsWord, continuesWord, Char.isAlphanum, Bool.or_eq_true] at *
  exact starts.imp_left .inl

theorem continuesWord_of_isDigitOrUnderscore {char : Char} (digit : isDigitOrUnderscore char) :
    continuesWord char := by
  simp only [isDigitOrUnderscore, continuesWord, Char.isAlphanum, Bool.or_eq_true] at *
  exact digit.imp_left .inr

theorem trails_word : Trails word continuesWord :=
  trails_andThen ((trails_one _).mono fun _ => continuesWord_of_startsWord) (trails_many _)

def rawWord : Pattern :=
  .andThen (.exactly ['r', '#']) word

theorem identifier_append (matched : identifier (front ++ rest) = some front.length)
    (stops : StopsAt continuesWord behind) (apart : front = ['r'] → ¬opensRawWord behind) :
    identifier (front ++ behind) = some front.length := by
  rcases orElse_eq_some.mp matched with matched | ⟨-, matched⟩
  · have munches : Munches rawWord continuesWord :=
      munches_andThen (closed_exactly _) munches_word
    exact orElse_eq_some.mpr (.inl (munches.append matched stops))
  · refine orElse_eq_some.mpr (.inr ⟨?_, munches_word.append matched stops⟩)
    obtain ⟨char, run, rfl, starts, all⟩ := exists_head_run matched
    cases raw : rawWord (char :: run ++ behind) with
    | none => exact raw
    | some taken =>
        obtain ⟨ahead, further, mark, later, -⟩ := andThen_eq_some.mp raw
        obtain ⟨rfl, tail, same⟩ := eq_append_of_exactly mark
        cases run with
        | nil =>
            cases same
            obtain ⟨other, more, rfl, accepted⟩ := starts_word _ _ later
            exact absurd accepted (apart rfl)
        | cons other run =>
            cases same
            exact absurd (all '#' (List.mem_cons_self ..)) (by decide)

theorem exists_mark {mark : List Char} {pattern : Pattern}
    (matched : andThen (.exactly mark) pattern (front ++ rest) = some front.length) :
    ∃ more, front = mark ++ more ∧ pattern (more ++ rest) = some more.length := by
  obtain ⟨ahead, further, first, later, length⟩ := andThen_eq_some.mp matched
  obtain ⟨rfl, tail, same⟩ := eq_append_of_exactly first
  obtain ⟨more, rfl, rfl⟩ := exists_within same (by omega)
  refine ⟨more, rfl, ?_⟩
  rw [List.append_assoc, List.drop_left] at later
  rw [List.length_append] at length
  rw [later]
  congr 1
  omega

theorem lifetime_append (matched : lifetime (front ++ rest) = some front.length)
    (stops : StopsAt continuesWord behind)
    (apart : front = ['\'', 'r'] → ¬opensRawWord behind) :
    lifetime (front ++ behind) = some front.length := by
  obtain ⟨name, rfl, named⟩ := exists_mark matched
  have again := identifier_append named stops fun same => apart (by rw [same]; rfl)
  rw [List.append_assoc, List.length_append]
  exact andThen_append (exactly_append ['\''] (name ++ behind)) again

/-! A number: its digits, and what may stand behind them. -/

def fraction : Pattern :=
  .andThen (.exactly ['.']) digits

def signedDigits : Pattern :=
  .andThen (.optional (.one fun char => char == '+' || char == '-')) (.several isDigitOrUnderscore)

def exponent : Pattern :=
  .andThen (.one isExponentMark) signedDigits

def behindFraction : Pattern :=
  .andThen (.optional exponent) (.optional word)

def behindDigits : Pattern :=
  .andThen (.optional fraction) behindFraction

theorem number_eq : number = .andThen digits behindDigits :=
  rfl

theorem munches_digits : Munches digits isDigitOrUnderscore :=
  munches_andThen (closed_one _) (munches_many _)

theorem starts_digits : Starts digits (Char.isDigit ·) :=
  starts_andThen (starts_one _)

theorem munches_fraction : Munches fraction isDigitOrUnderscore :=
  munches_andThen (closed_exactly _) munches_digits

theorem starts_fraction : Starts fraction (· = '.') :=
  starts_andThen (starts_exactly '.' [])

theorem starts_signedDigits :
    Starts signedDigits fun char => (char == '+' || char == '-') ∨ isDigitOrUnderscore char :=
  starts_optional_andThen (starts_one _) (starts_several _)

theorem munches_signedDigits : Munches signedDigits isDigitOrUnderscore := by
  refine munches_optional_andThen (closed_one _) (munches_several _) (starts_one _)
    (starts_several _) ?_
  intro char digit sign
  rcases (by simpa using sign : char = '+' ∨ char = '-') with rfl | rfl <;> revert digit <;> decide

theorem munches_exponent : Munches exponent isDigitOrUnderscore :=
  munches_andThen (closed_one _) munches_signedDigits

theorem starts_exponent : Starts exponent (isExponentMark ·) :=
  starts_andThen (starts_one _)

theorem trails_digits : Trails digits continuesWord :=
  (trails_andThen ((trails_one _).mono fun char digit => by simp [isDigitOrUnderscore, digit])
    (trails_many isDigitOrUnderscore)).mono fun _ => continuesWord_of_isDigitOrUnderscore

theorem trails_fraction : Trails fraction continuesWord :=
  trails_behind trails_digits starts_digits (andThen_ne_zero (one_ne_zero _))

theorem continuesWord_of_isExponentMark {char : Char} (mark : isExponentMark char) :
    continuesWord char := by
  rcases (by simpa [isExponentMark] using mark : char = 'e' ∨ char = 'E') with rfl | rfl <;> rfl

theorem trails_exponent : Trails exponent continuesWord :=
  trails_andThen ((trails_one _).mono fun _ => continuesWord_of_isExponentMark)
    ((trails_behind (trails_several _) (starts_several _) several_ne_zero).mono
      fun _ => continuesWord_of_isDigitOrUnderscore)

theorem trails_number : Trails number continuesWord :=
  trails_andThen trails_digits <|
    trails_andThen (trails_optional trails_fraction) <|
      trails_andThen (trails_optional trails_exponent) (trails_optional trails_word)

theorem optional_word_append (matched : optional word (front ++ rest) = some front.length)
    (stops : StopsAt continuesWord behind) :
    optional word (front ++ behind) = some front.length := by
  rcases optional_eq_some.mp matched with matched | ⟨-, empty⟩
  · exact optional_eq_some.mpr (.inl (munches_word.append matched stops))
  · obtain rfl := List.eq_nil_of_length_eq_zero empty
    exact optional_of_none
      (starts_word.none_of_stopsAt stops fun _ => continuesWord_of_startsWord)

theorem opensExponent_of_signedDigits {taken : Nat} (matched : signedDigits behind = some taken)
    (stops : StopsAt continuesWord behind) : opensExponent behind := by
  obtain ⟨ahead, further, sign, later, -⟩ := andThen_eq_some.mp matched
  rcases optional_eq_some.mp sign with sign | ⟨-, rfl⟩
  · obtain ⟨char, tail, rfl, isSign⟩ := starts_one _ _ _ sign
    have one_ahead : ahead = 1 := by simpa [one, isSign, eq_comm] using sign
    subst one_ahead
    obtain ⟨digit, more, rfl, isDigit⟩ := starts_several _ _ _ later
    simp [opensExponent, isDigit, isSign]
  · obtain ⟨digit, more, rfl, isDigit⟩ := starts_several _ _ _ later
    exact absurd (continuesWord_of_isDigitOrUnderscore isDigit) (stops digit rfl)

theorem exists_signedDigits {char : Char} (digit : isDigitOrUnderscore char) :
    ∃ taken, signedDigits (char :: rest) = some taken := by
  obtain ⟨taken, matched⟩ := @exists_several isDigitOrUnderscore char rest digit
  have noSign : one (fun char => char == '+' || char == '-') (char :: rest) = none := by
    rw [one_cons, if_neg]
    rintro sign
    rcases (by simpa using sign : char = '+' ∨ char = '-') with rfl | rfl
    all_goals exact absurd digit (by decide)
  exact ⟨_, andThen_eq_some.mpr ⟨0, taken, optional_of_none noSign, matched, rfl⟩⟩

/-- A suffix does not become an exponent. -/
theorem exponent_append (matched : optional word (front ++ rest) = some front.length)
    (failed : exponent (front ++ rest) = none) (stops : StopsAt continuesWord behind)
    (apart : ∀ mark, front = [mark] → isExponentMark mark → ¬opensExponent behind) :
    exponent (front ++ behind) = none := by
  cases front with
  | nil =>
      exact starts_exponent.none_of_stopsAt stops fun _ => continuesWord_of_isExponentMark
  | cons char run =>
      cases again : exponent (char :: run ++ behind) with
      | none => rfl
      | some taken =>
          obtain ⟨ahead, further, first, later, -⟩ := andThen_eq_some.mp again
          obtain ⟨_, _, ⟨⟩, isMark⟩ := starts_one _ _ _ first
          have one_ahead : ahead = 1 := by simpa [one, isMark, eq_comm] using first
          subst one_ahead
          cases run with
          | nil => exact absurd (opensExponent_of_signedDigits later stops) (apart char rfl isMark)
          | cons other run =>
              obtain ⟨_, _, ⟨⟩, opens⟩ := starts_signedDigits _ _ later
              have isWord := (optional_eq_some.mp matched).resolve_right (by simp)
              obtain ⟨_, _, ⟨⟩, -, all⟩ := exists_head_run isWord
              have goesOn := all other (List.mem_cons_self ..)
              rcases opens with sign | digit
              · rcases (by simpa using sign : other = '+' ∨ other = '-') with rfl | rfl <;>
                  exact absurd goesOn (by decide)
              · obtain ⟨further, digits⟩ := @exists_signedDigits (run ++ rest) other digit
                have found : exponent (char :: other :: run ++ rest) = some (1 + further) :=
                  andThen_eq_some.mpr ⟨1, further, by simp [one, isMark], digits, rfl⟩
                exact absurd (found.symm.trans failed) (by simp)

theorem behindFraction_append (matched : behindFraction (front ++ rest) = some front.length)
    (stops : StopsAt continuesWord behind)
    (apart : ∀ mark, front = [mark] → isExponentMark mark → ¬opensExponent behind) :
    behindFraction (front ++ behind) = some front.length := by
  obtain ⟨ahead, further, first, later, length⟩ := andThen_eq_some.mp matched
  rcases optional_eq_some.mp first with found | ⟨failed, rfl⟩
  · obtain ⟨left, tail, same, rfl, digits, takes⟩ := munches_exponent _ _ found
    obtain ⟨right, rfl, rfl⟩ := exists_within same (by omega)
    have rightLength : further = right.length := by simpa using length.symm
    rw [List.append_assoc, List.drop_left, rightLength] at later
    rw [List.append_assoc, List.length_append]
    refine andThen_append (optional_eq_some.mpr (.inl (takes _ ?_)))
      (optional_word_append later stops)
    exact digits.append (stops.mono fun _ => continuesWord_of_isDigitOrUnderscore)
  · obtain rfl : further = front.length := by omega
    have again := exponent_append later failed stops apart
    exact andThen_eq_some.mpr ⟨0, _, optional_of_none again, optional_word_append later stops,
      length⟩

theorem opensFraction_of_fraction {taken : Nat} (matched : fraction behind = some taken) :
    opensFraction behind := by
  obtain ⟨ahead, further, point, later, -⟩ := andThen_eq_some.mp matched
  obtain ⟨rfl, tail, rfl⟩ := eq_append_of_exactly point
  obtain ⟨digit, more, rfl, isDigit⟩ := starts_digits _ _ later
  exact isDigit

theorem starts_behindFraction {char : Char} (matched : behindFraction (char :: rest) ≠ some 0) :
    char ≠ '.' := by
  rintro rfl
  refine matched (andThen_eq_some.mpr ⟨0, 0, optional_of_none (starts_exponent.none (by decide)),
    optional_of_none (starts_word.none (by decide)), rfl⟩)

theorem numeric_digits (matched : digits (front ++ rest) = some front.length) :
    ∀ char ∈ front, isDigitOrUnderscore char := by
  obtain ⟨char, run, rfl, digit, all⟩ := exists_head_run matched
  intro other member
  rcases List.mem_cons.mp member with rfl | member
  · simp [isDigitOrUnderscore, digit]
  · exact all other member

theorem numeric_fraction (matched : fraction (front ++ rest) = some front.length) :
    ∀ char ∈ front, isNumeric char := by
  obtain ⟨more, rfl, digits⟩ := exists_mark matched
  intro other member
  rcases List.mem_cons.mp member with rfl | member
  · rfl
  · simp [isNumeric, numeric_digits digits other member]

theorem behindDigits_append (matched : behindDigits (front ++ rest) = some front.length)
    (stops : StopsAt continuesWord behind) (apart : front = [] → ¬opensFraction behind)
    (apartMark : ∀ left mark, front = left ++ [mark] → (∀ char ∈ left, isNumeric char) →
      isExponentMark mark → ¬opensExponent behind) :
    behindDigits (front ++ behind) = some front.length := by
  obtain ⟨ahead, further, first, later, length⟩ := andThen_eq_some.mp matched
  rcases optional_eq_some.mp first with found | ⟨failed, rfl⟩
  · obtain ⟨left, tail, same, rfl, ends, takes⟩ := munches_fraction _ _ found
    obtain ⟨right, rfl, rfl⟩ := exists_within same (by omega)
    have rightLength : further = right.length := by simpa using length.symm
    rw [List.append_assoc, List.drop_left, rightLength] at later
    rw [List.append_assoc, List.length_append]
    have numeric : ∀ char ∈ left, isNumeric char := by
      rw [same] at found
      exact numeric_fraction found
    refine andThen_append (optional_eq_some.mpr (.inl (takes _ ?_))) <|
      behindFraction_append later stops fun mark same =>
        apartMark left mark (by rw [same]) numeric
    exact ends.append (stops.mono fun _ => continuesWord_of_isDigitOrUnderscore)
  · obtain rfl : further = front.length := by omega
    have again : fraction (front ++ behind) = none := by
      cases front with
      | nil =>
          cases found : fraction behind with
          | none => exact found
          | some taken => exact absurd (opensFraction_of_fraction found) (apart rfl)
      | cons char run =>
          exact starts_fraction.none (starts_behindFraction (by
            rw [List.drop_zero, List.cons_append] at later
            rw [later]
            simp))
    exact andThen_eq_some.mpr ⟨0, _, optional_of_none again,
      behindFraction_append later stops fun mark same => apartMark [] mark same (by simp), length⟩

theorem number_append (matched : number (front ++ rest) = some front.length)
    (stops : StopsAt continuesWord behind) (apart : ¬lengthensNumber front behind) :
    number (front ++ behind) = some front.length := by
  obtain ⟨ahead, further, first, later, length⟩ := andThen_eq_some.mp matched
  obtain ⟨left, tail, same, rfl, ends, takes⟩ := munches_digits _ _ first
  obtain ⟨right, rfl, rfl⟩ := exists_within same (by omega)
  rw [same] at first
  have rightLength : further = right.length := by simpa using length.symm
  rw [List.append_assoc, List.drop_left, rightLength] at later
  rw [List.append_assoc, List.length_append]
  have numeric := numeric_digits first
  obtain ⟨char, run, rfl, digit, -⟩ := exists_head_run first
  refine andThen_append (takes _ ?_) (behindDigits_append later stops ?_ ?_)
  · exact ends.append (stops.mono fun _ => continuesWord_of_isDigitOrUnderscore)
  · rintro rfl opens
    have all : (char :: run).all isDigitOrUnderscore := List.all_eq_true.mpr numeric
    refine apart ?_
    simp only [lengthensNumber, List.append_nil, List.head?_cons, Option.any_some, digit, all,
      opens, Bool.and_self, Bool.true_or]
  · rintro left mark rfl numericLeft isMark opens
    have all : ((char :: run) ++ left).all isNumeric := by
      rw [List.all_append, Bool.and_eq_true, List.all_eq_true, List.all_eq_true]
      exact ⟨fun other member => by simp [isNumeric, numeric other member], numericLeft⟩
    have front : (char :: run) ++ (left ++ [mark]) = ((char :: run) ++ left) ++ [mark] :=
      (List.append_assoc ..).symm
    refine apart ?_
    rw [lengthensNumber, front, List.dropLast_concat, List.getLast?_concat]
    simp only [List.cons_append, List.head?_cons] at all ⊢
    simp only [Option.any_some, digit, all, isMark, opens, Bool.and_self, Bool.or_true]

/-! The longest operator is taken. -/

theorem two_le_length_longOperators : ∀ operator ∈ longOperators, 2 ≤ operator.toList.length := by
  decide

theorem starts_longOperators :
    ∀ operator ∈ longOperators, operator.toList.head?.any shortOperators.contains := by
  decide

theorem starts_punctuation : Starts punctuation (shortOperators.contains ·) := by
  intro text taken matched
  unfold punctuation at matched
  split at matched
  · rename_i operator found
    have isPrefix : operator.toList.isPrefixOf text := by simpa using List.find?_some found
    obtain ⟨rest, rfl⟩ := List.isPrefixOf_iff_prefix.mp isPrefix
    have long := two_le_length_longOperators operator (List.mem_of_find?_eq_some found)
    have starts := starts_longOperators operator (List.mem_of_find?_eq_some found)
    cases letters : operator.toList with
    | nil => simp [letters] at long
    | cons char more => exact ⟨char, more ++ rest, rfl, by simpa [letters] using starts⟩
  · exact starts_one _ text taken matched

theorem punctuation_append (matched : punctuation (front ++ rest) = some front.length)
    (notEmpty : front ≠ []) (apart : ¬lengthensOperator front behind) :
    punctuation (front ++ behind) = some front.length := by
  -- A longer operator would begin here, or one that stands in `front` already.
  have shorter {operator : String} (known : operator ∈ longOperators)
      (isPrefix : operator.toList.isPrefixOf (front ++ behind)) :
      operator.toList.isPrefixOf (front ++ rest) ∧ operator.length ≤ front.length := by
    have fits : operator.length ≤ front.length := by
      refine Nat.le_of_not_lt fun longer => apart ?_
      simp only [lengthensOperator, Bool.and_eq_true, List.any_eq_true, decide_eq_true_eq]
      exact ⟨by simpa using notEmpty, operator, known, longer, isPrefix⟩
    have within : operator.toList <+: front :=
      List.prefix_of_prefix_length_le (List.isPrefixOf_iff_prefix.mp isPrefix)
        (List.prefix_append front behind) (by rwa [String.length_toList])
    exact ⟨List.isPrefixOf_iff_prefix.mpr (within.trans (List.prefix_append front rest)), fits⟩
  unfold punctuation at matched ⊢
  split at matched
  · rename_i operator found
    have length : operator.length = front.length := Option.some.inj matched
    obtain ⟨isPrefix, earlier, later, split, notPrefix⟩ := List.find?_eq_some_iff_append.mp found
    have within : operator.toList <+: front :=
      List.prefix_of_prefix_length_le (List.isPrefixOf_iff_prefix.mp isPrefix)
        (List.prefix_append front rest) (Nat.le_of_eq (String.length_toList.trans length))
    have again : longOperators.find? (·.toList.isPrefixOf (front ++ behind)) = some operator := by
      refine List.find?_eq_some_iff_append.mpr
        ⟨List.isPrefixOf_iff_prefix.mpr (within.trans (List.prefix_append front behind)),
          earlier, later, split, fun other member => ?_⟩
      have known : other ∈ longOperators := by
        rw [split]
        exact List.mem_append_left _ member
      have failed := notPrefix other member
      cases isPrefix : other.toList.isPrefixOf (front ++ behind) with
      | false => rfl
      | true => simp [(shorter known isPrefix).1] at failed
    rw [again, ← length]
  · have single : front.length = 1 := by
      obtain ⟨char, tail, starts, accepted⟩ := starts_one _ _ _ matched
      rw [starts, one_cons, if_pos accepted] at matched
      exact (Option.some.inj matched).symm
    have again : longOperators.find? (·.toList.isPrefixOf (front ++ behind)) = none := by
      refine List.find?_eq_none.mpr fun operator known isPrefix => ?_
      have fits := (shorter known isPrefix).2
      have long := two_le_length_longOperators operator known
      rw [String.length_toList] at long
      omega
    rw [again]
    exact (closed_one _).takes matched behind

end

end Headfirst.Lexeme
