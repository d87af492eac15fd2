import Mathlib.Algebra.Ring.Nat
import Mathlib.Data.List.Forall2
import Headfirst.Json

namespace Headfirst.Json

/-! Which document a JSON text stands for.

A text is read from its front, and what is left of it stays in sight, so that nothing here refers to
the way documents are printed.  A text stands for one document at most, and every document is
printed as a text that stands for it. -/

/-- The white space between the parts of a text. -/
def isBlank (char : Char) : Bool :=
  char == ' ' || char == '\t' || char == '\n' || char == '\r'

def skip (text : List Char) : List Char :=
  text.dropWhile isBlank

/-- What can stand behind a number. -/
def endsNumber (char : Char) : Bool :=
  isBlank char || char == ',' || char == ']' || char == '\x7d'

/-- The letters that stand for a character behind a backslash. -/
def escapes : List (Char × Char) :=
  [('"', '"'), ('\\', '\\'), ('/', '/'), ('b', '\x08'), ('f', '\x0c'), ('n', '\n'), ('r', '\r'),
    ('t', '\t')]

def digit? (digit : Char) : Option Nat :=
  if digit.isDigit then some (digit.toNat - 0x30)
  else if 'a' ≤ digit ∧ digit ≤ 'f' then some (digit.toNat - 0x61 + 10)
  else if 'A' ≤ digit ∧ digit ≤ 'F' then some (digit.toNat - 0x41 + 10)
  else none

/-- The number that hexadecimal digits stand for. -/
def number? (digits : List Char) : Option Nat :=
  digits.foldlM (fun value digit => (digit? digit).map (16 * value + ·)) 0

/-- A UTF-16 unit in four hexadecimal digits. -/
def unit? (text : List Char) : Option (Nat × List Char) :=
  if text.length < 4 then none else (number? (text.take 4)).map (·, text.drop 4)

/-- The first character of a string, as it is or escaped.  A character beyond the basic plane is
escaped as two units. -/
def char? : List Char → Option (Char × List Char)
  | [] | ['\\'] | '"' :: _ => none
  | '\\' :: 'u' :: text =>
      match unit? text with
      | none => none
      | some (high, text) =>
          if high < 0xD800 ∨ 0xE000 ≤ high then some (Char.ofNat high, text)
          else
            match text with
            | '\\' :: 'u' :: text =>
                match unit? text with
                | none => none
                | some (low, text) =>
                    if high < 0xDC00 ∧ 0xDC00 ≤ low ∧ low < 0xE000 then
                      some (Char.ofNat (0x10000 + (high - 0xD800) * 0x400 + (low - 0xDC00)), text)
                    else none
            | _ => none
  | '\\' :: letter :: text => (escapes.lookup letter).map (·, text)
  | char :: text => if 0x20 ≤ char.toNat then some (char, text) else none

/-- The characters of a string up to the mark that ends it. -/
inductive Chars : List Char → List Char → List Char → Prop where
  | done {rest : List Char} : Chars ('"' :: rest) [] rest
  | char {text middle rest chars : List Char} {char : Char}
      (first : char? text = some (char, middle)) (others : Chars middle chars rest) :
      Chars text (char :: chars) rest

/-- What is read in one go: a value, a field of an object, or what stands behind an opening bracket
that is not closed at once. -/
inductive Part where
  | value (value : Json)
  | field (field : String × Json)
  | items (items : List Json)
  | fields (fields : List (String × Json))

/-- Reads a part from the front of a text.  Numbers with a fraction or an exponent are left out, as
no document has them. -/
inductive Reads : List Char → Part → List Char → Prop where
  | null {rest : List Char} : Reads ('n' :: 'u' :: 'l' :: 'l' :: rest) (.value .null) rest
  | yes {rest : List Char} : Reads ('t' :: 'r' :: 'u' :: 'e' :: rest) (.value (.bool true)) rest
  | no {rest : List Char} :
      Reads ('f' :: 'a' :: 'l' :: 's' :: 'e' :: rest) (.value (.bool false)) rest
  | int {number : Int} {text rest : List Char} (spelled : text = number.repr.toList ++ rest)
      (ends : ∀ char ∈ rest.head?, endsNumber char = true) : Reads text (.value (.int number)) rest
  | str {string : String} {text rest : List Char} (chars : Chars text string.toList rest) :
      Reads ('"' :: text) (.value (.str string)) rest
  | noItems {text rest : List Char} (closed : skip text = ']' :: rest) :
      Reads ('[' :: text) (.value (.arr [])) rest
  | arr {items : List Json} {text rest : List Char} (inner : Reads (skip text) (.items items) rest) :
      Reads ('[' :: text) (.value (.arr items)) rest
  | noFields {text rest : List Char} (closed : skip text = '\x7d' :: rest) :
      Reads ('\x7b' :: text) (.value (.obj [])) rest
  | obj {fields : List (String × Json)} {text rest : List Char}
      (inner : Reads (skip text) (.fields fields) rest) :
      Reads ('\x7b' :: text) (.value (.obj fields)) rest
  | field {name : String} {value : Json} {text middle further rest : List Char}
      (named : Chars text name.toList middle) (colon : skip middle = ':' :: further)
      (valued : Reads (skip further) (.value value) rest) :
      Reads ('"' :: text) (.field (name, value)) rest
  | lastItem {item : Json} {text middle rest : List Char} (first : Reads text (.value item) middle)
      (closed : skip middle = ']' :: rest) : Reads text (.items [item]) rest
  | moreItems {item : Json} {items : List Json} {text middle further rest : List Char}
      (first : Reads text (.value item) middle) (comma : skip middle = ',' :: further)
      (others : Reads (skip further) (.items items) rest) : Reads text (.items (item :: items)) rest
  | lastField {entry : String × Json} {text middle rest : List Char}
      (first : Reads text (.field entry) middle) (closed : skip middle = '\x7d' :: rest) :
      Reads text (.fields [entry]) rest
  | moreFields {entry : String × Json} {fields : List (String × Json)}
      {text middle further rest : List Char} (first : Reads text (.field entry) middle)
      (comma : skip middle = ',' :: further) (others : Reads (skip further) (.fields fields) rest) :
      Reads text (.fields (entry :: fields)) rest

/-- A text that stands for a document, with nothing but white space around it. -/
def Denotes (text : String) (value : Json) : Prop :=
  ∃ rest, Reads (skip text.toList) (.value value) rest ∧ skip rest = []

/-! ### Reading is certain -/

section Reading

variable {text rest other : List Char}

theorem Chars.unique {chars others : List Char} (first : Chars text chars rest)
    (second : Chars text others other) : chars = others ∧ rest = other := by
  induction first generalizing others with
  | done =>
      cases second with
      | done => exact ⟨rfl, rfl⟩
      | char start _ => simp [char?] at start
  | char start _ ih =>
      cases second with
      | done => simp [char?] at start
      | char start' more =>
          cases start.symm.trans start'
          obtain ⟨rfl, rfl⟩ := ih more
          exact ⟨rfl, rfl⟩

/-- A number is written as digits, behind a sign if it is negative. -/
theorem repr_eq (number : Int) :
    number.repr.toList = (if number < 0 then ['-'] else []) ++ Nat.toDigits 10 number.natAbs := by
  cases number with
  | ofNat value =>
      have natural : (Int.ofNat value).repr = value.repr := rfl
      rw [natural, Nat.repr_eq_ofList_toDigits, String.toList_ofList]
      simp
  | negSucc value =>
      have signed : (Int.negSucc value).repr = "-" ++ (value + 1).repr := rfl
      rw [signed, Nat.repr_eq_ofList_toDigits, String.toList_append, String.toList_ofList]
      simp [Int.negSucc_lt_zero]

theorem isDigit_of_mem_natAbs {number : Int} {char : Char}
    (member : char ∈ Nat.toDigits 10 number.natAbs) : char.isDigit = true :=
  Nat.isDigit_of_mem_toDigits (by decide) (by decide) member

/-- A number starts with a digit or with its sign. -/
theorem exists_repr_eq_cons (number : Int) :
    ∃ first others, number.repr.toList = first :: others ∧ (first = '-' ∨ first.isDigit = true) := by
  rw [repr_eq]
  split
  · exact ⟨'-', _, rfl, .inl rfl⟩
  · obtain ⟨first, others, digits⟩ :=
      List.exists_cons_of_ne_nil (Nat.toDigits_ne_nil (n := number.natAbs) (b := 10))
    have member : first ∈ Nat.toDigits 10 number.natAbs := by simp [digits]
    exact ⟨first, others, digits, .inr (isDigit_of_mem_natAbs member)⟩

/-- A number goes on up to a character that ends it. -/
theorem takeWhile_repr (number : Int) (ends : ∀ char ∈ rest.head?, endsNumber char = true) :
    (number.repr.toList ++ rest).takeWhile (!endsNumber ·) = number.repr.toList := by
  have inside : ∀ char ∈ number.repr.toList, (!endsNumber char) = true := by
    intro char member
    rw [repr_eq, List.mem_append] at member
    rcases member with sign | digit
    · obtain rfl : char = '-' := by
        split at sign <;> simp_all
      rfl
    · have apart (mark : Char) (noDigit : mark.isDigit = false) : char ≠ mark := by
        rintro rfl
        simp [isDigit_of_mem_natAbs digit] at noDigit
      simp [endsNumber, isBlank, apart]
  rw [List.takeWhile_append_of_pos inside]
  cases rest with
  | nil => simp
  | cons char rest => simp [ends char rfl]

theorem repr_unique {number another : Int} (ends : ∀ char ∈ rest.head?, endsNumber char = true)
    (ended : ∀ char ∈ other.head?, endsNumber char = true)
    (same : number.repr.toList ++ rest = another.repr.toList ++ other) :
    number = another ∧ rest = other := by
  have numeral : number.repr.toList = another.repr.toList := by
    rw [← takeWhile_repr number ends, same, takeWhile_repr another ended]
  have rests : rest = other := by
    rw [numeral] at same
    exact List.append_cancel_left same
  refine ⟨?_, rests⟩
  have unsigned (value : Int) : '-' ∉ Nat.toDigits 10 value.natAbs := fun member =>
    Bool.false_ne_true (isDigit_of_mem_natAbs member)
  have value (value : Nat) : Nat.ofDigitChars 10 (Nat.toDigits 10 value) 0 = value :=
    Nat.ofDigitChars_toDigits (by decide) (by decide)
  rw [repr_eq, repr_eq] at numeral
  have signs : number < 0 ↔ another < 0 := by
    have signed (value : Int) :
        '-' ∈ (if value < 0 then ['-'] else []) ++ Nat.toDigits 10 value.natAbs ↔ value < 0 := by
      by_cases negative : value < 0 <;> simp [negative, unsigned]
    rw [← signed number, numeral, signed]
  simp only [signs] at numeral
  have digits := congrArg (Nat.ofDigitChars 10 · 0) (List.append_cancel_left numeral)
  simp only [value] at digits
  omega

/-- What a part can start with. -/
def startsPart (char : Char) : Bool :=
  char ∈ ['n', 't', 'f', '"', '[', '\x7b', '-'] || char.isDigit

theorem Reads.starts {part : Part} (reads : Reads text part rest) :
    ∃ first others, text = first :: others ∧ startsPart first = true := by
  induction reads with
  | int spelled ends =>
      rename_i number text rest
      obtain ⟨first, others, numeral, start⟩ := exists_repr_eq_cons number
      refine ⟨first, others ++ rest, by rw [spelled, numeral]; rfl, ?_⟩
      rcases start with rfl | digit
      · rfl
      · simp [startsPart, digit]
  | lastItem _ _ ih | lastField _ _ ih => exact ih
  | moreItems _ _ _ ih _ | moreFields _ _ _ ih _ => exact ih
  | _ => exact ⟨_, _, rfl, rfl⟩

/-- Parts of one kind. -/
def Part.Alike : Part → Part → Prop
  | .value _, .value _ | .field _, .field _ | .items _, .items _ | .fields _, .fields _ => True
  | _, _ => False

/-- A number does not start like another value. -/
theorem not_mem_repr {number : Int} {first : Char} {others : List Char}
    (spelled : first :: others = number.repr.toList ++ rest)
    (apart : first ≠ '-' ∧ first.isDigit = false) : False := by
  obtain ⟨start, digits, numeral, signed⟩ := exists_repr_eq_cons number
  rw [numeral, List.cons_append, List.cons.injEq] at spelled
  obtain ⟨rfl, -⟩ := spelled
  simp_all

/-- A bracket is closed at once, or something stands behind it. -/
theorem Reads.not_closed {part : Part} {closing : Char} {middle : List Char}
    (inner : Reads (skip text) part rest) (closed : skip text = closing :: middle)
    (ends : startsPart closing = false) : False := by
  obtain ⟨first, others, same, start⟩ := inner.starts
  cases closed.symm.trans same
  exact Bool.false_ne_true (ends.symm.trans start)

theorem Reads.unique {part another : Part} (first : Reads text part rest)
    (second : Reads text another other) (alike : part.Alike another) :
    part = another ∧ rest = other := by
  induction first generalizing another other with
  | null =>
      cases second with
      | null => exact ⟨rfl, rfl⟩
      | int spelled => exact (not_mem_repr spelled (by decide)).elim
      | _ => contradiction
  | yes =>
      cases second with
      | yes => exact ⟨rfl, rfl⟩
      | int spelled => exact (not_mem_repr spelled (by decide)).elim
      | _ => contradiction
  | no =>
      cases second with
      | no => exact ⟨rfl, rfl⟩
      | int spelled => exact (not_mem_repr spelled (by decide)).elim
      | _ => contradiction
  | int spelled ends =>
      cases second with
      | int spelled' ended =>
          obtain ⟨rfl, rfl⟩ := repr_unique ends ended (spelled.symm.trans spelled')
          exact ⟨rfl, rfl⟩
      | null | yes | no | str | noItems | arr | noFields | obj =>
          exact (not_mem_repr spelled (by decide)).elim
      | _ => contradiction
  | str chars =>
      cases second with
      | str chars' =>
          obtain ⟨same, rfl⟩ := chars.unique chars'
          exact ⟨by rw [String.toList_inj.mp same], rfl⟩
      | int spelled => exact (not_mem_repr spelled (by decide)).elim
      | _ => contradiction
  | noItems closed =>
      cases second with
      | noItems closed' => exact ⟨rfl, (List.cons.inj (closed.symm.trans closed')).2⟩
      | arr inner => exact (inner.not_closed closed rfl).elim
      | int spelled => exact (not_mem_repr spelled (by decide)).elim
      | _ => contradiction
  | arr inner ih =>
      cases second with
      | noItems closed => exact (inner.not_closed closed rfl).elim
      | arr inner' =>
          obtain ⟨same, rfl⟩ := ih inner' trivial
          cases same
          exact ⟨rfl, rfl⟩
      | int spelled => exact (not_mem_repr spelled (by decide)).elim
      | _ => contradiction
  | noFields closed =>
      cases second with
      | noFields closed' => exact ⟨rfl, (List.cons.inj (closed.symm.trans closed')).2⟩
      | obj inner => exact (inner.not_closed closed rfl).elim
      | int spelled => exact (not_mem_repr spelled (by decide)).elim
      | _ => contradiction
  | obj inner ih =>
      cases second with
      | noFields closed => exact (inner.not_closed closed rfl).elim
      | obj inner' =>
          obtain ⟨same, rfl⟩ := ih inner' trivial
          cases same
          exact ⟨rfl, rfl⟩
      | int spelled => exact (not_mem_repr spelled (by decide)).elim
      | _ => contradiction
  | field named colon _ ih =>
      cases second with
      | field named' colon' valued =>
          obtain ⟨same, rfl⟩ := named.unique named'
          cases colon.symm.trans colon'
          obtain ⟨value, rfl⟩ := ih valued trivial
          cases value
          exact ⟨by rw [String.toList_inj.mp same], rfl⟩
      | _ => contradiction
  | lastItem _ closed ih =>
      cases second with
      | lastItem first closed' =>
          obtain ⟨same, rfl⟩ := ih first trivial
          cases same
          exact ⟨rfl, (List.cons.inj (closed.symm.trans closed')).2⟩
      | moreItems first comma _ =>
          obtain ⟨-, rfl⟩ := ih first trivial
          cases closed.symm.trans comma
      | _ => contradiction
  | moreItems _ comma _ ih ihOthers =>
      cases second with
      | lastItem first closed =>
          obtain ⟨-, rfl⟩ := ih first trivial
          cases closed.symm.trans comma
      | moreItems first comma' others =>
          obtain ⟨same, rfl⟩ := ih first trivial
          cases same
          cases comma.symm.trans comma'
          obtain ⟨items, rfl⟩ := ihOthers others trivial
          cases items
          exact ⟨rfl, rfl⟩
      | _ => contradiction
  | lastField _ closed ih =>
      cases second with
      | lastField first closed' =>
          obtain ⟨same, rfl⟩ := ih first trivial
          cases same
          exact ⟨rfl, (List.cons.inj (closed.symm.trans closed')).2⟩
      | moreFields first comma _ =>
          obtain ⟨-, rfl⟩ := ih first trivial
          cases closed.symm.trans comma
      | _ => contradiction
  | moreFields _ comma _ ih ihOthers =>
      cases second with
      | lastField first closed =>
          obtain ⟨-, rfl⟩ := ih first trivial
          cases closed.symm.trans comma
      | moreFields first comma' others =>
          obtain ⟨same, rfl⟩ := ih first trivial
          cases same
          cases comma.symm.trans comma'
          obtain ⟨fields, rfl⟩ := ihOthers others trivial
          cases fields
          exact ⟨rfl, rfl⟩
      | _ => contradiction

end Reading

/-- A text stands for one document at most. -/
theorem Denotes.unique {text : String} {value another : Json} (first : Denotes text value)
    (second : Denotes text another) : value = another := by
  obtain ⟨rest, reads, -⟩ := first
  obtain ⟨other, reads', -⟩ := second
  obtain ⟨same, -⟩ := reads.unique reads' trivial
  exact Part.value.inj same

/-- Every text that stands for a document begins with white space or as a value does. -/
theorem Denotes.starts {text : String} {value : Json} (denotes : Denotes text value) :
    ∀ first ∈ text.toList.head?, isBlank first = true ∨ Json.startsPart first = true := by
  intro first member
  obtain ⟨rest, reads, -⟩ := denotes
  obtain ⟨start, others, same, starts⟩ := reads.starts
  cases spelled : text.toList with
  | nil => simp [spelled] at member
  | cons char tail =>
      obtain rfl : char = first := by simpa [spelled] using member
      by_cases blank : isBlank char = true
      · exact .inl blank
      · rw [spelled, skip, List.dropWhile_cons_of_neg blank] at same
        cases same
        exact .inr starts

/-! ### What is printed reads back -/

section Printing

variable {text rest : List Char}

theorem digit?_digitChar {value : Nat} (small : value < 16) :
    digit? (Nat.digitChar value) = some value := by
  revert value
  decide

theorem number?_hex (width value : Nat) :
    number? (Text.hex width value) = some (value % 16 ^ width) := by
  induction width generalizing value with
  | zero => simp [number?, Text.hex, Nat.mod_one]
  | succ width ih =>
      have last := digit?_digitChar (Nat.mod_lt value (by decide : 0 < 16))
      have front := ih (value / 16)
      have split : value % 16 ^ (width + 1) = 16 * (value / 16 % 16 ^ width) + value % 16 := by
        rw [Nat.pow_succ, Nat.mul_comm (16 ^ width), Nat.mod_mul, Nat.add_comm]
      unfold number? at front ⊢
      rw [Text.hex, List.foldlM_append, front, split]
      simp [last]

theorem unit?_hex {value : Nat} (small : value < 0x10000) :
    unit? (Text.hex 4 value ++ rest) = some (value, rest) := by
  have width := Text.length_hex 4 value
  have long : ¬ (Text.hex 4 value ++ rest).length < 4 := by
    rw [List.length_append, width]
    omega
  rw [unit?, if_neg long, List.take_left' width, List.drop_left' width, number?_hex]
  simp [Nat.mod_eq_of_lt small]

theorem char?_escapedUnits (char : Char) :
    char? (escapedUnits char.toNat ++ rest) = some (char, rest) := by
  have valid := char.valid
  unfold UInt32.isValidChar Nat.isValidChar at valid
  have code : char.val.toNat = char.toNat := rfl
  rw [code] at valid
  unfold escapedUnits
  split
  · rename_i basic
    have scalar : char.toNat < 0xD800 ∨ 0xE000 ≤ char.toNat := by omega
    simp only [List.cons_append, char?, unit?_hex basic, scalar, if_true, Char.ofNat_toNat]
  · rename_i beyond
    have high : 0xD800 + (char.toNat - 0x10000) / 0x400 < 0x10000 := by omega
    have low : 0xDC00 + (char.toNat - 0x10000) % 0x400 < 0x10000 := by omega
    have surrogate : ¬ (0xD800 + (char.toNat - 0x10000) / 0x400 < 0xD800 ∨
        0xE000 ≤ 0xD800 + (char.toNat - 0x10000) / 0x400) := by omega
    have paired : 0xD800 + (char.toNat - 0x10000) / 0x400 < 0xDC00 ∧
        0xDC00 ≤ 0xDC00 + (char.toNat - 0x10000) % 0x400 ∧
        0xDC00 + (char.toNat - 0x10000) % 0x400 < 0xE000 := by omega
    have whole : 0x10000 + (0xD800 + (char.toNat - 0x10000) / 0x400 - 0xD800) * 0x400 +
        (0xDC00 + (char.toNat - 0x10000) % 0x400 - 0xDC00) = char.toNat := by omega
    simp only [List.cons_append, List.append_assoc, char?, unit?_hex high, surrogate, if_false,
      unit?_hex low, paired, and_self, if_true, whole, Char.ofNat_toNat]

theorem char?_of_plain {char : Char} (visible : 0x20 ≤ char.toNat) (noMark : char ≠ '"')
    (noEscape : char ≠ '\\') : char? (char :: rest) = some (char, rest) := by
  unfold char?
  split <;> simp_all

theorem char?_escapedChar (char : Char) :
    char? (escapedChar char ++ rest) = some (char, rest) := by
  fun_cases escapedChar char with
  | case8 char noMark noEscape _ _ _ _ _ visible =>
      exact char?_of_plain visible.1 noMark noEscape
  | case9 => exact char?_escapedUnits char
  | _ => rfl

theorem chars_escaped (chars : List Char) :
    Chars (chars.flatMap escapedChar ++ '"' :: rest) chars rest := by
  induction chars with
  | nil => exact .done
  | cons char chars ih =>
      rw [List.flatMap_cons, List.append_assoc]
      exact .char (char?_escapedChar char) ih

theorem toList_quoted (string : String) :
    (quoted string).toList ++ rest =
      '"' :: (string.toList.flatMap escapedChar ++ '"' :: rest) := by
  simp [quoted]

/-- A text that reads as a part in front of everything a number can stand in front of. -/
def Fits (text : String) (part : Part) : Prop :=
  ∀ rest : List Char, (∀ char ∈ rest.head?, endsNumber char = true) →
    Reads (text.toList ++ rest) part rest

theorem skip_append {blank : List Char} (white : ∀ char ∈ blank, isBlank char = true) :
    skip (blank ++ text) = skip text :=
  List.dropWhile_append_of_pos white

theorem Reads.skip {part : Part} (reads : Reads text part rest) : Json.skip text = text := by
  obtain ⟨first, others, rfl, starts⟩ := reads.starts
  have plain : isBlank first = false := by
    unfold isBlank
    simp only [Bool.or_eq_false_iff, beq_eq_false_iff_ne]
    refine ⟨⟨⟨?_, ?_⟩, ?_⟩, ?_⟩ <;> (rintro rfl; contradiction)
  rw [Json.skip, List.dropWhile_cons_of_neg (by simp [plain])]

/-- A kind of brackets, and how what stands between them is read. -/
structure Brackets (α : Type) where
  opening : Char
  closing : Char
  one : α → Part
  many : List α → Part
  whole : List α → Json
  empty {text rest : List Char} : skip text = closing :: rest →
    Reads (opening :: text) (.value (whole [])) rest
  filled {entries : List α} {text rest : List Char} : Reads (skip text) (many entries) rest →
    Reads (opening :: text) (.value (whole entries)) rest
  last {entry : α} {text middle rest : List Char} : Reads text (one entry) middle →
    skip middle = closing :: rest → Reads text (many [entry]) rest
  more {entry : α} {entries : List α} {text middle further rest : List Char} :
    Reads text (one entry) middle → skip middle = ',' :: further →
    Reads (skip further) (many entries) rest → Reads text (many (entry :: entries)) rest
  ends : endsNumber closing = true
  apart : isBlank closing = false

def Brackets.square : Brackets Json :=
  ⟨'[', ']', .value, .items, .arr, .noItems, .arr, .lastItem, .moreItems, rfl, rfl⟩

def Brackets.curly : Brackets (String × Json) :=
  ⟨'\x7b', '\x7d', .field, .fields, .obj, .noFields, .obj, .lastField, .moreFields, rfl, rfl⟩

variable {α : Type} {texts : List String} {entries : List α}

/-- Entries that fit one by one are read behind each other, with white space between them. -/
theorem Brackets.reads_lines (brackets : Brackets α) {inner outer : List Char}
    (white : ∀ char ∈ inner, isBlank char = true) (white' : ∀ char ∈ outer, isBlank char = true)
    (fit : List.Forall₂ (fun text entry => Fits text (brackets.one entry)) texts entries)
    (some : texts ≠ []) (rest : List Char) :
    Reads ((',' :: inner).intercalate (texts.map String.toList) ++
      (outer ++ brackets.closing :: rest)) (brackets.many entries) rest := by
  induction fit with
  | nil => exact absurd rfl some
  | @cons text entry texts entries first others ih =>
      cases others with
      | nil =>
          have stops : ∀ char ∈ (outer ++ brackets.closing :: rest).head?,
              endsNumber char = true := by
            cases outer with
            | nil => simpa using brackets.ends
            | cons char outer => simpa [endsNumber] using .inl (.inl (.inl (white' char (by simp))))
          have closed : skip (outer ++ brackets.closing :: rest) = brackets.closing :: rest := by
            rw [skip_append white', skip, List.dropWhile_cons_of_neg (by simp [brackets.apart])]
          simpa using brackets.last (first _ stops) closed
      | cons second others =>
          have tail := ih (by simp)
          rw [List.map_cons, List.map_cons, List.intercalate_cons_cons, ← List.map_cons,
            List.append_assoc, List.append_assoc, List.cons_append]
          refine brackets.more (first _ (by simp [endsNumber])) rfl ?_
          rw [skip_append white, tail.skip]
          exact tail

/-- A fresh line is white space. -/
theorem isBlank_of_mem_line (indent : Nat) :
    ∀ char ∈ ("\n".pushn ' ' indent).toList, isBlank char = true := by
  induction indent with
  | zero => simp [String.pushn, Nat.repeat, isBlank]
  | succ indent ih =>
      have further : "\n".pushn ' ' (indent + 1) = ("\n".pushn ' ' indent).push ' ' := rfl
      rw [further, String.toList_push]
      simp only [List.mem_append, List.mem_singleton]
      rintro char (member | rfl)
      · exact ih char member
      · rfl

theorem Brackets.fits_enclosed (brackets : Brackets α) {opening closing : String}
    (opened : opening.toList = [brackets.opening]) (closed : closing.toList = [brackets.closing])
    (indent : Nat)
    (fit : List.Forall₂ (fun text entry => Fits text (brackets.one entry)) texts entries) :
    Fits (enclosed opening closing indent texts) (.value (brackets.whole entries)) := by
  intro rest _
  by_cases none : texts = []
  · rw [none, List.forall₂_nil_left_iff] at fit
    have plain : Json.skip (brackets.closing :: rest) = brackets.closing :: rest := by
      rw [Json.skip, List.dropWhile_cons_of_neg (by simp [brackets.apart])]
    simpa [none, fit, enclosed, opened, closed] using brackets.empty plain
  · have white := isBlank_of_mem_line indent
    have further : ∀ char ∈ ("\n".pushn ' ' indent).toList ++ [' ', ' '], isBlank char = true := by
      simp only [List.mem_append]
      rintro char (member | member)
      · exact white char member
      · obtain rfl : char = ' ' := by simpa using member
        rfl
    have reads := brackets.reads_lines further white fit none rest
    have spelled : (enclosed opening closing indent texts).toList ++ rest =
        brackets.opening :: (("\n".pushn ' ' indent).toList ++ [' ', ' '] ++
          ((',' :: (("\n".pushn ' ' indent).toList ++ [' ', ' '])).intercalate
            (texts.map String.toList) ++
          (("\n".pushn ' ' indent).toList ++ brackets.closing :: rest))) := by
      simp [enclosed, none, opened, closed, String.toList_intercalate]
    rw [spelled]
    refine brackets.filled ?_
    rw [skip_append further, reads.skip]
    exact reads

mutual

/-- A document is printed as a text that reads as the document. -/
theorem fits_pretty : ∀ (indent : Nat) (value : Json), Fits (value.pretty indent) (.value value)
  | _, .null => by
      rw [pretty]
      exact fun _ _ => .null
  | _, .bool true => by
      rw [pretty]
      exact fun _ _ => .yes
  | _, .bool false => by
      rw [pretty]
      exact fun _ _ => .no
  | _, .int number => by
      rw [pretty]
      exact fun _ ends => .int rfl ends
  | _, .str string => by
      intro rest _
      rw [pretty, toList_quoted]
      exact .str (chars_escaped _)
  | indent, .arr items => by
      rw [pretty]
      exact Brackets.square.fits_enclosed rfl rfl indent (fits_prettyItems (indent + 2) items)
  | indent, .obj fields => by
      rw [pretty]
      exact Brackets.curly.fits_enclosed rfl rfl indent (fits_prettyFields (indent + 2) fields)

theorem fits_prettyItems : ∀ (indent : Nat) (items : List Json),
    List.Forall₂ (fun text item => Fits text (.value item)) (prettyItems indent items) items
  | _, [] => by
      rw [prettyItems]
      exact .nil
  | indent, item :: items => by
      rw [prettyItems]
      exact .cons (fits_pretty indent item) (fits_prettyItems indent items)

theorem fits_prettyFields : ∀ (indent : Nat) (fields : List (String × Json)),
    List.Forall₂ (fun text entry => Fits text (.field entry)) (prettyFields indent fields) fields
  | _, [] => by
      rw [prettyFields]
      exact .nil
  | indent, (name, value) :: fields => by
      rw [prettyFields]
      refine .cons (fun rest ends => ?_) (fits_prettyFields indent fields)
      have valued := fits_pretty indent value rest ends
      have spelled : (quoted name ++ ": " ++ value.pretty indent).toList ++ rest =
          '"' :: (name.toList.flatMap escapedChar ++
            '"' :: ':' :: ' ' :: ((value.pretty indent).toList ++ rest)) := by
        simp [toList_quoted]
      rw [spelled]
      refine .field (chars_escaped _) rfl ?_
      exact (congrArg (Reads · _ _) valued.skip).mpr valued

end

/-- A printed document stands for the document, and for no other. -/
theorem denotes_pretty_iff {value another : Json} :
    Denotes (value.pretty 0 ++ "\n") another ↔ another = value := by
  have denotes : Denotes (value.pretty 0 ++ "\n") value := by
    have reads := fits_pretty 0 value ['\n'] (by simp [endsNumber, isBlank])
    refine ⟨['\n'], ?_, rfl⟩
    rw [String.toList_append]
    exact (congrArg (Reads · _ _) reads.skip).mpr reads
  refine ⟨fun other => other.unique denotes, ?_⟩
  rintro rfl
  exact denotes

end Printing

end Headfirst.Json
