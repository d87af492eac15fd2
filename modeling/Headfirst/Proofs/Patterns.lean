import Headfirst.Lexeme.Classes

namespace Headfirst.Pattern

/-! What a pattern takes, and what of it depends on the text behind. -/

/-- Off any text that starts with `front` the pattern takes just that. -/
def Takes (pattern : Pattern) (front : List Char) : Prop :=
  ∀ behind, pattern (front ++ behind) = some front.length

/-- What the pattern takes does not depend on the text behind it. -/
def Closed (pattern : Pattern) : Prop :=
  ∀ text taken, pattern text = some taken →
    ∃ front rest, text = front ++ rest ∧ taken = front.length ∧ pattern.Takes front

/-- The text does not go on with a character of the kind. -/
def StopsAt (kind : Char → Bool) (text : List Char) : Prop :=
  ∀ char ∈ text.head?, ¬kind char

/-- What the pattern takes ends where the characters of a kind do. -/
def Munches (pattern : Pattern) (kind : Char → Bool) : Prop :=
  ∀ text taken, pattern text = some taken →
    ∃ front rest, text = front ++ rest ∧ taken = front.length ∧ StopsAt kind rest ∧
      ∀ behind, StopsAt kind behind → pattern (front ++ behind) = some front.length

/-- The pattern only matches where such a character stands. -/
def Starts (pattern : Pattern) (accepts : Char → Prop) : Prop :=
  ∀ text taken, pattern text = some taken → ∃ char rest, text = char :: rest ∧ accepts char

variable {first second : Pattern} {accepts refuses : Char → Prop} {front rest : List Char}

theorem Closed.takes {pattern : Pattern} (closed : pattern.Closed)
    (matched : pattern (front ++ rest) = some front.length) : pattern.Takes front := by
  obtain ⟨front', rest', same, length, takes⟩ := closed _ _ matched
  obtain ⟨rfl, -⟩ := List.append_inj same length
  exact takes

@[simp] theorem stopsAt_nil (kind : Char → Bool) : StopsAt kind [] := by
  simp [StopsAt]

@[simp] theorem stopsAt_cons {kind : Char → Bool} {char : Char} :
    StopsAt kind (char :: rest) ↔ ¬kind char := by
  simp [StopsAt]

theorem StopsAt.mono {kind other : Char → Bool} {text : List Char} (stops : StopsAt kind text)
    (implies : ∀ char, other char → kind char) : StopsAt other text :=
  fun char head accepted => stops char head (implies char accepted)

theorem StopsAt.append {kind : Char → Bool} {middle behind : List Char}
    (before : StopsAt kind (middle ++ rest)) (stops : StopsAt kind behind) :
    StopsAt kind (middle ++ behind) := by
  cases middle with
  | nil => exact stops
  | cons char middle => simpa using before

theorem closed_iff_munches {pattern : Pattern} :
    pattern.Closed ↔ pattern.Munches fun _ => false := by
  have stops (text : List Char) : StopsAt (fun _ => false) text := by simp [StopsAt]
  constructor
  · intro closed text taken matched
    obtain ⟨front, rest, same, length, takes⟩ := closed text taken matched
    exact ⟨front, rest, same, length, stops rest, fun behind _ => takes behind⟩
  · intro munches text taken matched
    obtain ⟨front, rest, same, length, -, takes⟩ := munches text taken matched
    exact ⟨front, rest, same, length, fun behind => takes behind (stops behind)⟩

theorem Starts.none {pattern : Pattern} (starts : pattern.Starts accepts) {char : Char}
    (refused : ¬accepts char) : pattern (char :: rest) = .none := by
  cases matched : pattern (char :: rest) with
  | none => rfl
  | some taken =>
      obtain ⟨_, _, same, accepted⟩ := starts _ _ matched
      cases same
      exact absurd accepted refused

theorem Starts.none_of_stopsAt {pattern : Pattern} {kind : Char → Bool} {text : List Char}
    (starts : pattern.Starts accepts) (stops : StopsAt kind text)
    (implies : ∀ char, accepts char → kind char) : pattern text = .none := by
  cases matched : pattern text with
  | none => rfl
  | some taken =>
      obtain ⟨char, rest, rfl, accepted⟩ := starts text taken matched
      exact absurd (implies char accepted) (stops char rfl)

/-- A text cut in two ways, at the front of which one part ends within the other. -/
theorem exists_within {left tail : List Char} (same : front ++ rest = left ++ tail)
    (within : left.length ≤ front.length) :
    ∃ right, front = left ++ right ∧ tail = right ++ rest := by
  rcases List.append_eq_append_iff.mp same with ⟨more, rfl, rfl⟩ | ⟨right, rfl, rfl⟩
  · rw [List.length_append] at within
    have empty : more = [] := List.eq_nil_of_length_eq_zero (by omega)
    subst empty
    exact ⟨[], by simp, rfl⟩
  · exact ⟨right, rfl, rfl⟩

theorem one_cons {accepts : Char → Bool} {char : Char} :
    one accepts (char :: rest) = if accepts char then some 1 else none :=
  rfl

theorem starts_one (accepts : Char → Bool) : (one accepts).Starts (accepts ·) := by
  intro text taken matched
  cases text with
  | nil => cases matched
  | cons char rest =>
      refine ⟨char, rest, rfl, ?_⟩
      cases accepted : accepts char with
      | true => exact accepted
      | false => simp [one, accepted] at matched

theorem closed_one (accepts : Char → Bool) : (one accepts).Closed := by
  intro text taken matched
  obtain ⟨char, rest, rfl, accepted⟩ := starts_one accepts text taken matched
  have taken_eq : taken = 1 := by simpa [one, accepted, eq_comm] using matched
  exact ⟨[char], rest, rfl, taken_eq, fun behind => by simp [one, accepted]⟩

theorem exactly_append (expected behind : List Char) :
    exactly expected (expected ++ behind) = some expected.length := by
  simp [exactly]

theorem eq_append_of_exactly {expected text : List Char} {taken : Nat}
    (matched : exactly expected text = some taken) :
    taken = expected.length ∧ ∃ rest, text = expected ++ rest := by
  unfold exactly at matched
  split at matched
  · rename_i isPrefix
    obtain ⟨rest, rfl⟩ := List.isPrefixOf_iff_prefix.mp isPrefix
    exact ⟨(Option.some.inj matched).symm, rest, rfl⟩
  · cases matched

theorem closed_exactly (expected : List Char) : (exactly expected).Closed := by
  intro text taken matched
  obtain ⟨rfl, rest, rfl⟩ := eq_append_of_exactly matched
  exact ⟨expected, rest, rfl, rfl, exactly_append expected⟩

theorem starts_exactly (char : Char) (more : List Char) :
    (exactly (char :: more)).Starts (· = char) := by
  intro text taken matched
  obtain ⟨-, rest, rfl⟩ := eq_append_of_exactly matched
  exact ⟨char, more ++ rest, rfl, rfl⟩

theorem Munches.append {pattern : Pattern} {kind : Char → Bool} {behind : List Char}
    (munches : pattern.Munches kind) (matched : pattern (front ++ rest) = some front.length)
    (stops : StopsAt kind behind) : pattern (front ++ behind) = some front.length := by
  obtain ⟨front', rest', same, length, -, takes⟩ := munches _ _ matched
  obtain ⟨rfl, -⟩ := List.append_inj same length
  exact takes behind stops

theorem Munches.stops {pattern : Pattern} {kind : Char → Bool}
    (munches : pattern.Munches kind) (matched : pattern (front ++ rest) = some front.length) :
    StopsAt kind rest := by
  obtain ⟨front', rest', same, length, stops, -⟩ := munches _ _ matched
  obtain ⟨-, rfl⟩ := List.append_inj same length
  exact stops

theorem andThen_eq_some {text : List Char} {taken : Nat} :
    andThen first second text = some taken ↔
      ∃ ahead further, first text = some ahead ∧ second (text.drop ahead) = some further ∧
        taken = ahead + further := by
  unfold andThen
  cases first text with
  | none => simp
  | some ahead =>
      constructor
      · intro matched
        obtain ⟨further, rest, rfl⟩ := Option.map_eq_some_iff.mp matched
        exact ⟨ahead, further, rfl, rest, rfl⟩
      · rintro ⟨_, further, ⟨⟩, rest, rfl⟩
        exact Option.map_eq_some_iff.mpr ⟨further, rest, rfl⟩

theorem andThen_append {left right : List Char}
    (matchedFirst : first (left ++ right) = some left.length) {further : Nat}
    (matchedSecond : second right = some further) :
    andThen first second (left ++ right) = some (left.length + further) :=
  andThen_eq_some.mpr ⟨_, _, matchedFirst, by rwa [List.drop_left], rfl⟩

theorem munches_andThen {kind : Char → Bool} (closed : first.Closed)
    (munches : second.Munches kind) : (andThen first second).Munches kind := by
  intro text taken matched
  obtain ⟨ahead, further, matchedFirst, matchedSecond, rfl⟩ := andThen_eq_some.mp matched
  obtain ⟨left, rest, rfl, rfl, takesLeft⟩ := closed _ _ matchedFirst
  rw [List.drop_left] at matchedSecond
  obtain ⟨right, rest, rfl, rfl, stops, takesRight⟩ := munches _ _ matchedSecond
  refine ⟨left ++ right, rest, (List.append_assoc ..).symm, List.length_append.symm, stops,
    fun behind stops => ?_⟩
  rw [List.append_assoc, List.length_append]
  exact andThen_append (takesLeft _) (takesRight behind stops)

theorem closed_andThen (closedFirst : first.Closed) (closedSecond : second.Closed) :
    (andThen first second).Closed :=
  closed_iff_munches.mpr (munches_andThen closedFirst (closed_iff_munches.mp closedSecond))

theorem one_ne_zero (accepts : Char → Bool) (text : List Char) : one accepts text ≠ some 0 := by
  intro matched
  obtain ⟨char, rest, rfl, accepted⟩ := starts_one accepts text 0 matched
  simp [one, accepted] at matched

theorem exactly_ne_zero (char : Char) (more text : List Char) :
    exactly (char :: more) text ≠ some 0 := by
  intro matched
  have length := (eq_append_of_exactly matched).1
  simp at length

theorem andThen_ne_zero (positive : ∀ text, first text ≠ some 0) (text : List Char) :
    andThen first second text ≠ some 0 := by
  intro matched
  obtain ⟨ahead, further, matchedFirst, -, length⟩ := andThen_eq_some.mp matched
  obtain rfl : ahead = 0 := by omega
  exact positive text matchedFirst

theorem starts_andThen (starts : first.Starts accepts) :
    (andThen first second).Starts accepts := by
  intro text taken matched
  obtain ⟨ahead, _, matchedFirst, _⟩ := andThen_eq_some.mp matched
  exact starts text ahead matchedFirst

theorem orElse_eq_some {text : List Char} {taken : Nat} :
    orElse first second text = some taken ↔
      first text = some taken ∨ first text = none ∧ second text = some taken := by
  simp [orElse, Option.or_eq_some_iff]

theorem starts_orElse (startsFirst : first.Starts accepts) (startsSecond : second.Starts refuses) :
    (orElse first second).Starts fun char => accepts char ∨ refuses char := by
  intro text taken matched
  rcases orElse_eq_some.mp matched with matched | ⟨-, matched⟩
  · obtain ⟨char, rest, same, accepted⟩ := startsFirst text taken matched
    exact ⟨char, rest, same, .inl accepted⟩
  · obtain ⟨char, rest, same, accepted⟩ := startsSecond text taken matched
    exact ⟨char, rest, same, .inr accepted⟩

/-- A choice that the first character decides. -/
theorem closed_orElse (closedFirst : first.Closed) (closedSecond : second.Closed)
    (startsFirst : first.Starts accepts) (startsSecond : second.Starts refuses)
    (disjoint : ∀ char, refuses char → ¬accepts char) : (orElse first second).Closed := by
  intro text taken matched
  rcases orElse_eq_some.mp matched with matched | ⟨-, matched⟩
  · obtain ⟨front, rest, same, length, takes⟩ := closedFirst text taken matched
    exact ⟨front, rest, same, length, fun behind => by simp [orElse, takes behind]⟩
  · obtain ⟨front, rest, same, length, takes⟩ := closedSecond text taken matched
    refine ⟨front, rest, same, length, fun behind => ?_⟩
    obtain ⟨char, rest, starts, refused⟩ := startsSecond _ _ (takes behind)
    have failed : first (front ++ behind) = none := by
      rw [starts]
      exact startsFirst.none (disjoint char refused)
    exact orElse_eq_some.mpr (.inr ⟨failed, takes behind⟩)

theorem optional_eq_some {pattern : Pattern} {text : List Char} {taken : Nat} :
    optional pattern text = some taken ↔
      pattern text = some taken ∨ pattern text = none ∧ taken = 0 := by
  rw [optional, orElse_eq_some, Option.some.injEq, @eq_comm Nat 0]

theorem optional_of_none {pattern : Pattern} {text : List Char} (failed : pattern text = none) :
    optional pattern text = some 0 :=
  optional_eq_some.mpr (.inr ⟨failed, rfl⟩)

theorem starts_optional_andThen (startsFirst : first.Starts accepts)
    (startsSecond : second.Starts refuses) :
    (andThen (optional first) second).Starts fun char => accepts char ∨ refuses char := by
  intro text taken matched
  obtain ⟨ahead, _, matchedFirst, matchedSecond, _⟩ := andThen_eq_some.mp matched
  rcases optional_eq_some.mp matchedFirst with matched | ⟨-, rfl⟩
  · obtain ⟨char, rest, same, accepted⟩ := startsFirst _ _ matched
    exact ⟨char, rest, same, .inl accepted⟩
  · obtain ⟨char, rest, same, accepted⟩ := startsSecond _ _ matchedSecond
    exact ⟨char, rest, same, .inr accepted⟩

theorem munches_optional_andThen {kind : Char → Bool} (closed : first.Closed)
    (munches : second.Munches kind) (startsFirst : first.Starts accepts)
    (startsSecond : second.Starts refuses) (disjoint : ∀ char, refuses char → ¬accepts char) :
    (andThen (optional first) second).Munches kind := by
  intro text taken matched
  obtain ⟨ahead, further, matchedFirst, matchedSecond, rfl⟩ := andThen_eq_some.mp matched
  rcases optional_eq_some.mp matchedFirst with matchedFirst | ⟨-, rfl⟩
  · obtain ⟨left, rest, rfl, rfl, takesLeft⟩ := closed _ _ matchedFirst
    rw [List.drop_left] at matchedSecond
    obtain ⟨right, rest, rfl, rfl, stops, takesRight⟩ := munches _ _ matchedSecond
    refine ⟨left ++ right, rest, (List.append_assoc ..).symm, List.length_append.symm, stops,
      fun behind stops => ?_⟩
    rw [List.append_assoc, List.length_append]
    exact andThen_append (optional_eq_some.mpr (.inl (takesLeft _))) (takesRight behind stops)
  · obtain ⟨front, rest, rfl, rfl, stops, takes⟩ := munches text further matchedSecond
    refine ⟨front, rest, rfl, Nat.zero_add _, stops, fun behind stops => ?_⟩
    obtain ⟨char, rest, starts, refused⟩ := startsSecond _ _ (takes behind stops)
    have failed : first (front ++ behind) = none := by
      rw [starts]
      exact startsFirst.none (disjoint char refused)
    exact andThen_eq_some.mpr ⟨0, front.length, optional_of_none failed, takes behind stops,
      (Nat.zero_add _).symm⟩

theorem closed_optional_andThen (closedFirst : first.Closed) (closedSecond : second.Closed)
    (startsFirst : first.Starts accepts) (startsSecond : second.Starts refuses)
    (disjoint : ∀ char, refuses char → ¬accepts char) :
    (andThen (optional first) second).Closed :=
  closed_iff_munches.mpr <| munches_optional_andThen closedFirst
    (closed_iff_munches.mp closedSecond) startsFirst startsSecond disjoint

/-- What stands in front may be left out, if it can be. -/
theorem optional_andThen_eq_some {text : List Char} {taken : Nat}
    (matched : andThen (optional first) second text = some taken) :
    (∃ ahead further, first text = some ahead ∧ second (text.drop ahead) = some further) ∨
      second text = some taken := by
  obtain ⟨ahead, further, matchedFirst, matchedSecond, rfl⟩ := andThen_eq_some.mp matched
  rcases optional_eq_some.mp matchedFirst with matched | ⟨-, rfl⟩
  · exact .inl ⟨ahead, further, matched, matchedSecond⟩
  · exact .inr (by rwa [Nat.zero_add])

theorem eq_cons_of_exactly {mark char : Char} {taken : Nat}
    (matched : andThen (exactly [mark]) second (char :: rest) = some taken) :
    char = mark ∧ ∃ further, second rest = some further := by
  obtain ⟨ahead, further, matchedFirst, matchedSecond, -⟩ := andThen_eq_some.mp matched
  obtain ⟨rfl, tail, same⟩ := eq_append_of_exactly matchedFirst
  cases same
  exact ⟨rfl, further, matchedSecond⟩

/-! Runs of characters of one kind, which end where another character stands. -/

section

variable {kind : Char → Bool} {run behind : List Char}

theorem takeWhile_run (all : ∀ char ∈ run, kind char) (stops : StopsAt kind behind) :
    (run ++ behind).takeWhile kind = run := by
  rw [List.takeWhile_append_of_pos all]
  cases behind with
  | nil => simp
  | cons char rest => simp [stops char rfl]

theorem exists_run (kind : Char → Bool) (text : List Char) :
    ∃ run rest, text = run ++ rest ∧ text.takeWhile kind = run ∧ (∀ char ∈ run, kind char) ∧
      StopsAt kind rest := by
  refine ⟨text.takeWhile kind, text.dropWhile kind, List.takeWhile_append_dropWhile.symm, rfl,
    List.all_eq_true.mp List.all_takeWhile, fun char head => ?_⟩
  have failed := List.head?_dropWhile_not kind text
  rw [Option.mem_def.mp head] at failed
  simpa using failed

theorem many_run (all : ∀ char ∈ run, kind char) (stops : StopsAt kind behind) :
    many kind (run ++ behind) = some run.length := by
  rw [many, takeWhile_run all stops]

theorem munches_many (kind : Char → Bool) : (many kind).Munches kind := by
  intro text taken matched
  obtain ⟨run, rest, rfl, taking, all, stops⟩ := exists_run kind text
  rw [many, taking] at matched
  exact ⟨run, rest, rfl, (Option.some.inj matched).symm, stops,
    fun behind stops => many_run all stops⟩

theorem several_eq_some {text : List Char} {taken : Nat} :
    several kind text = some taken ↔ many kind text = some taken ∧ taken ≠ 0 := by
  unfold several many
  split
  · rename_i none
    simp [none, eq_comm]
  · rename_i some
    have positive : (text.takeWhile kind).length ≠ 0 := by simpa using some
    constructor
    · rintro ⟨⟩
      exact ⟨rfl, positive⟩
    · exact fun matched => matched.1

theorem exists_several {char : Char} {rest : List Char} (accepted : kind char) :
    ∃ taken, several kind (char :: rest) = some taken :=
  ⟨_, several_eq_some.mpr ⟨rfl, by simp [List.takeWhile, accepted]⟩⟩

theorem munches_several (kind : Char → Bool) : (several kind).Munches kind := by
  intro text taken matched
  obtain ⟨matched, positive⟩ := several_eq_some.mp matched
  obtain ⟨run, rest, rfl, rfl, stops, takes⟩ := munches_many kind text taken matched
  exact ⟨run, rest, rfl, rfl, stops,
    fun behind stops => several_eq_some.mpr ⟨takes behind stops, positive⟩⟩

theorem starts_several (kind : Char → Bool) : (several kind).Starts (kind ·) := by
  intro text taken matched
  obtain ⟨matched, positive⟩ := several_eq_some.mp matched
  cases text with
  | nil => cases matched; contradiction
  | cons char rest =>
      refine ⟨char, rest, rfl, ?_⟩
      cases accepted : kind char with
      | true => exact accepted
      | false =>
          simp only [many, List.takeWhile, accepted, Option.some.injEq] at matched
          exact absurd matched.symm positive

end

/-! The last character of what a pattern takes. -/

def Trails (pattern : Pattern) (kind : Char → Bool) : Prop :=
  ∀ text taken, pattern text = some taken → ∀ char ∈ (text.take taken).getLast?, kind char

section

variable {kind : Char → Bool}

theorem trails_one (kind : Char → Bool) : (one kind).Trails kind := by
  intro text taken matched char last
  obtain ⟨front, rest, rfl, accepted⟩ := starts_one kind text taken matched
  have one_taken : taken = 1 := by simpa [one, accepted, eq_comm] using matched
  have same : front = char := by simpa [one_taken] using last
  exact same ▸ accepted

theorem trails_many (kind : Char → Bool) : (many kind).Trails kind := by
  rintro text taken ⟨⟩ char last
  obtain ⟨run, rest, rfl, taking, all, -⟩ := exists_run kind text
  rw [taking, List.take_left] at last
  exact all char (List.mem_of_getLast? last)

theorem trails_andThen (trailsFirst : first.Trails kind) (trailsSecond : second.Trails kind) :
    (andThen first second).Trails kind := by
  intro text taken matched char last
  obtain ⟨ahead, further, matchedFirst, matchedSecond, rfl⟩ := andThen_eq_some.mp matched
  rw [List.take_add, List.getLast?_append, Option.mem_def, Option.or_eq_some_iff] at last
  rcases last with last | ⟨-, last⟩
  · exact trailsSecond _ _ matchedSecond char last
  · exact trailsFirst _ _ matchedFirst char last

/-- What stands in front of something that is not empty may end with anything. -/
theorem trails_behind (trails : second.Trails kind) (starts : second.Starts accepts)
    (positive : ∀ text, second text ≠ some 0) : (andThen first second).Trails kind := by
  intro text taken matched char last
  obtain ⟨ahead, further, -, later, rfl⟩ := andThen_eq_some.mp matched
  obtain ⟨other, rest, same, -⟩ := starts _ _ later
  have notEmpty : (text.drop ahead).take further ≠ [] := by
    have nonzero : further ≠ 0 := fun zero => positive _ (zero ▸ later)
    simp [same, nonzero]
  rw [List.take_add, List.getLast?_append, List.getLast?_eq_some_getLast notEmpty,
    Option.some_or, ← List.getLast?_eq_some_getLast] at last
  exact trails _ _ later char last

theorem trails_several (kind : Char → Bool) : (several kind).Trails kind :=
  fun text taken matched => trails_many kind text taken (several_eq_some.mp matched).1

theorem several_ne_zero (text : List Char) : several kind text ≠ some 0 :=
  fun matched => (several_eq_some.mp matched).2 rfl

theorem trails_optional {pattern : Pattern} (trails : pattern.Trails kind) :
    (optional pattern).Trails kind := by
  intro text taken matched char last
  rcases optional_eq_some.mp matched with matched | ⟨-, rfl⟩
  · exact trails text taken matched char last
  · simp at last

theorem trails_orElse (trailsFirst : first.Trails kind) (trailsSecond : second.Trails kind) :
    (orElse first second).Trails kind := by
  intro text taken matched
  rcases orElse_eq_some.mp matched with matched | ⟨-, matched⟩
  · exact trailsFirst text taken matched
  · exact trailsSecond text taken matched

theorem Trails.mono {pattern : Pattern} {other : Char → Bool} (trails : pattern.Trails kind)
    (implies : ∀ char, kind char → other char) : pattern.Trails other :=
  fun text taken matched char last => implies char (trails text taken matched char last)

end

/-! No pattern takes more than there is. -/

def Bounded (pattern : Pattern) : Prop :=
  ∀ text taken, pattern text = some taken → taken ≤ text.length

theorem Munches.bounded {pattern : Pattern} {kind : Char → Bool} (munches : pattern.Munches kind) :
    pattern.Bounded := by
  intro text taken matched
  obtain ⟨front, rest, rfl, rfl, -⟩ := munches text taken matched
  simp

theorem Closed.bounded {pattern : Pattern} (closed : pattern.Closed) : pattern.Bounded :=
  (closed_iff_munches.mp closed).bounded

theorem bounded_andThen (boundedFirst : first.Bounded) (boundedSecond : second.Bounded) :
    (andThen first second).Bounded := by
  intro text taken matched
  obtain ⟨ahead, further, matchedFirst, matchedSecond, rfl⟩ := andThen_eq_some.mp matched
  have former := boundedFirst _ _ matchedFirst
  have latter := boundedSecond _ _ matchedSecond
  rw [List.length_drop] at latter
  omega

theorem bounded_orElse (boundedFirst : first.Bounded) (boundedSecond : second.Bounded) :
    (orElse first second).Bounded := by
  intro text taken matched
  rcases orElse_eq_some.mp matched with matched | ⟨-, matched⟩
  · exact boundedFirst _ _ matched
  · exact boundedSecond _ _ matched

theorem bounded_optional {pattern : Pattern} (bounded : pattern.Bounded) :
    (optional pattern).Bounded := by
  intro text taken matched
  rcases optional_eq_some.mp matched with matched | ⟨-, rfl⟩
  · exact bounded _ _ matched
  · exact Nat.zero_le _

end Headfirst.Pattern
