import Mathlib.Data.List.TakeWhile
import Headfirst.Proofs.Blame

namespace Headfirst

open Headfirst.Tree

/-! The source line that is shown with a failure.

Lines are counted by line feeds where places are, and by every break that a reader sees where the
source is split to be shown.  The two agree as long as no other break comes first. -/

namespace Text

/-- A line of a text, with what is in front of it and behind it.  It ends with the text or at a line
feed, of which a carriage return in front of it is part. -/
structure IsLine (text front line back : List Char) : Prop where
  whole : text = front ++ (line ++ back)
  starts : ∀ last ∈ front.getLast?, last = '\n'
  unbroken : '\n' ∉ line
  ends : back = [] ∨ (∃ later, back = '\n' :: later ∧ line.getLast? ≠ some '\r') ∨
    ∃ later, back = '\r' :: '\n' :: later

/-- The number of breaks in a text other than line feeds, where a carriage return in front of a
line feed is part of it. -/
def strayBreaks : List Char → Nat
  | [] => 0
  | '\r' :: '\n' :: rest => strayBreaks rest
  | char :: rest => (if isLineBreak char && char != '\n' then 1 else 0) + strayBreaks rest

variable {text front line back rest : List Char} {char : Char}

/-- The character is not the carriage return of a break of two characters. -/
def Alone (char : Char) (rest : List Char) : Prop :=
  ∀ later, char = '\r' → rest = '\n' :: later → False

theorem Alone.append (alone : Alone char front) (starts : front = [] → char = '\n') :
    Alone char (front ++ rest) := by
  intro later isReturn same
  cases front with
  | nil =>
      rw [starts rfl] at isReturn
      contradiction
  | cons first others =>
      cases same
      exact alone others isReturn rfl

theorem splitLines_break (alone : Alone char rest) (breaks : isLineBreak char = true) :
    splitLines (char :: rest) = [] :: splitLines rest := by
  rw [splitLines, if_pos breaks]
  exact alone

theorem splitLines_plain (plain : isLineBreak char = false) :
    splitLines (char :: rest) =
      (char :: (splitLines rest).headD []) :: (splitLines rest).tail := by
  have alone : Alone char rest := by
    rintro later rfl -
    exact absurd plain (by decide)
  rw [splitLines, plain]
  · cases splitLines rest <;> rfl
  · exact alone

theorem eq_nil_of_splitLines (none : splitLines text = []) : text = [] := by
  fun_cases splitLines text with
  | case1 => rfl
  | case2 | case3 | case4 | case5 => simp_all [splitLines]

/-- The first line that is shown goes up to the first break of any kind. -/
theorem head_splitLines (text : List Char) :
    ((splitLines text)[0]?).getD [] = text.takeWhile (!isLineBreak ·) := by
  fun_induction splitLines text with
  | case1 => rfl
  | case2 rest ih => rfl
  | case3 char rest alone breaks ih => simp [breaks]
  | case4 char rest alone plain none ih =>
      rw [eq_nil_of_splitLines none]
      simp [plain]
  | case5 char rest alone plain line lines found ih =>
      rw [found] at ih
      simpa [plain] using ih

theorem strayBreaks_cons (alone : Alone char rest) :
    strayBreaks (char :: rest) =
      (if isLineBreak char && char != '\n' then 1 else 0) + strayBreaks rest := by
  rw [strayBreaks]
  exact alone

theorem closed_of_cons (closed : ∀ last ∈ (char :: front).getLast?, last = '\n') :
    (front = [] → char = '\n') ∧ ∀ last ∈ front.getLast?, last = '\n' := by
  cases front with
  | nil => exact ⟨fun _ => closed char rfl, by simp⟩
  | cons first others => exact ⟨nofun, by simpa using closed⟩

/-- Behind whole lines a text is split as if they were not there. -/
theorem splitLines_append (closed : ∀ last ∈ front.getLast?, last = '\n') (rest : List Char) :
    splitLines (front ++ rest) = splitLines front ++ splitLines rest := by
  fun_induction splitLines front with
  | case1 => rfl
  | case2 front ih =>
      have behind := (closed_of_cons (closed_of_cons closed).2).2
      rw [List.cons_append, List.cons_append, splitLines, ih behind]
      rfl
  | case3 char front alone breaks ih =>
      obtain ⟨last, behind⟩ := closed_of_cons closed
      rw [List.cons_append, splitLines_break (Alone.append alone last) breaks, ih behind]
      rfl
  | case4 char front alone plain none ih =>
      rw [(closed_of_cons closed).1 (eq_nil_of_splitLines none)] at plain
      exact absurd rfl plain
  | case5 char front alone plain line lines found ih =>
      obtain ⟨last, behind⟩ := closed_of_cons closed
      rw [List.cons_append, splitLines_plain (by simpa using plain), ih behind, found]
      rfl

theorem strayBreaks_append (closed : ∀ last ∈ front.getLast?, last = '\n') (rest : List Char) :
    strayBreaks (front ++ rest) = strayBreaks front + strayBreaks rest := by
  fun_induction strayBreaks front with
  | case1 => simp
  | case2 front ih =>
      have behind := (closed_of_cons (closed_of_cons closed).2).2
      rw [List.cons_append, List.cons_append, strayBreaks, ih behind]
  | case3 char front alone ih =>
      obtain ⟨last, behind⟩ := closed_of_cons closed
      rw [List.cons_append, strayBreaks_cons (Alone.append alone last), ih behind, Nat.add_assoc]

/-- Whole lines are shown as one line more for each break in them that does not end a line. -/
theorem length_splitLines (closed : ∀ last ∈ front.getLast?, last = '\n') :
    (splitLines front).length = front.count '\n' + strayBreaks front := by
  fun_induction strayBreaks front with
  | case1 => rfl
  | case2 front ih =>
      have behind := (closed_of_cons (closed_of_cons closed).2).2
      rw [splitLines, List.length_cons, ih behind]
      simp only [List.count_cons, beq_self_eq_true, if_true]
      simp
      omega
  | case3 char front alone ih =>
      obtain ⟨last, behind⟩ := closed_of_cons closed
      have later := ih behind
      cases breaks : isLineBreak char with
      | true =>
          rw [splitLines_break alone breaks, List.length_cons, later, List.count_cons]
          by_cases feed : char = '\n'
          · simp only [feed, beq_self_eq_true, bne_self_eq_false, Bool.and_false, if_true]
            simp
            omega
          · simp [feed]
            omega
      | false =>
          have feed : char ≠ '\n' := by
            rintro rfl
            contradiction
          have some : splitLines front ≠ [] := fun none => feed (last (eq_nil_of_splitLines none))
          have positive := List.length_pos_iff.mpr some
          rw [splitLines_plain breaks, List.length_cons, List.length_tail,
            Nat.sub_add_cancel positive, later, List.count_cons_of_ne feed]
          simp

namespace IsLine

variable (isLine : IsLine text front line back)

include isLine

/-- What is behind a line begins with a break. -/
theorem takeWhile_append : (line ++ back).takeWhile (!isLineBreak ·) =
    line.takeWhile (!isLineBreak ·) := by
  have behind : back.takeWhile (!isLineBreak ·) = [] := by
    rcases isLine.ends with rfl | ⟨later, rfl, -⟩ | ⟨later, rfl⟩ <;> rfl
  rw [List.takeWhile_append, behind, List.append_nil]
  split
  · rename_i all
    exact ((List.takeWhile_prefix _).eq_of_length all).symm
  · rfl

theorem shown_of_strayBreaks_eq_zero (none : strayBreaks front = 0) :
    ((splitLines text)[front.count '\n']?).getD [] = line.takeWhile (!isLineBreak ·) := by
  have before := length_splitLines isLine.starts
  rw [none, Nat.add_zero] at before
  rw [isLine.whole, splitLines_append isLine.starts, List.getElem?_append_right (by omega), before,
    Nat.sub_self, head_splitLines, isLine.takeWhile_append]

theorem exists_shown (stray : 0 < strayBreaks front) :
    ∃ shown, (splitLines front)[front.count '\n']? = some shown ∧
      (splitLines text)[front.count '\n']? = some shown := by
  have before := length_splitLines isLine.starts
  have bound : front.count '\n' < (splitLines front).length := by omega
  refine ⟨_, List.getElem?_eq_getElem bound, ?_⟩
  rw [isLine.whole, splitLines_append isLine.starts, List.getElem?_append_left bound,
    List.getElem?_eq_getElem bound]

/-- Without stray breaks the line has no break in it. -/
theorem unbroken_of_strayBreaks (none : strayBreaks text = 0) :
    ∀ char ∈ line, isLineBreak char = false := by
  rw [isLine.whole, strayBreaks_append isLine.starts, Nat.add_eq_zero_iff] at none
  have inside := none.2
  have unbroken := isLine.unbroken
  have ends := isLine.ends
  clear isLine none
  induction line with
  | nil => simp
  | cons char line ih =>
      rw [List.mem_cons, not_or] at unbroken
      have alone : Alone char (line ++ back) := by
        rintro later rfl same
        cases line with
        | cons next others =>
            cases same
            exact unbroken.2 List.mem_cons_self
        | nil =>
            rcases ends with rfl | ⟨_, -, other⟩ | ⟨_, rfl⟩
            · contradiction
            · exact other rfl
            · simp at same
      rw [List.cons_append, strayBreaks_cons alone, Nat.add_eq_zero_iff] at inside
      have plain : isLineBreak char = false := by
        have noBreak := inside.1
        have feed : char ≠ '\n' := fun same => unbroken.1 same.symm
        simpa [feed] using noBreak
      refine List.forall_mem_cons.mpr ⟨plain, ih inside.2 unbroken.2 ?_⟩
      refine ends.imp_right (.imp_left ?_)
      rintro ⟨later, same, other⟩
      refine ⟨later, same, fun last => other ?_⟩
      rw [List.getLast?_cons, last]
      rfl

end IsLine

/-- The line that a text ends in. -/
theorem exists_lastLine (ahead : List Char) :
    ∃ front before, ahead = front ++ before ∧ (∀ last ∈ front.getLast?, last = '\n') ∧
      '\n' ∉ before := by
  induction ahead using List.reverseRecOn with
  | nil => exact ⟨[], [], rfl, by simp, by simp⟩
  | append_singleton ahead char ih =>
      by_cases feed : char = '\n'
      · exact ⟨ahead ++ [char], [], by simp, by simp [feed], by simp⟩
      · obtain ⟨front, before, rfl, closed, unbroken⟩ := ih
        refine ⟨front, before ++ [char], by simp, closed, ?_⟩
        simpa [Ne.symm feed] using unbroken

/-- The line in which a place lies that is not within a break, with what of it is in front of the
place. -/
theorem exists_isLine {ahead : List Char}
    (within : (∀ char ∈ rest.head?, isBlank char = false) ∨ ahead = []) :
    ∃ front before behind back, ahead = front ++ before ∧ '\n' ∉ before ∧
      IsLine (ahead ++ rest) front (before ++ behind) back ∧
      ∀ char ∈ rest.head?, isBlank char = false → behind.head? = some char := by
  obtain ⟨front, before, rfl, closed, unbroken⟩ := exists_lastLine ahead
  obtain ⟨tail, after, rfl, -, inside, stops⟩ := Pattern.exists_run (· != '\n') rest
  have noFeed : '\n' ∉ before ++ tail := by
    rw [List.mem_append, not_or]
    exact ⟨unbroken, fun feed => by simpa using inside _ feed⟩
  have here : ∀ char ∈ (tail ++ after).head?, isBlank char = false → tail.head? = some char := by
    intro char head visible
    cases tail with
    | cons first others => simpa using head
    | nil =>
        obtain rfl : char = '\n' := by simpa using stops char head
        exact absurd visible (by decide)
  cases after with
  | nil =>
      exact ⟨front, before, tail, [], rfl, unbroken, ⟨by simp, closed, noFeed, .inl rfl⟩, here⟩
  | cons feed later =>
      obtain rfl : feed = '\n' := by simpa using stops feed rfl
      by_cases returns : (before ++ tail).getLast? = some '\r'
      · rcases List.eq_nil_or_concat tail with rfl | ⟨behind, last, rfl⟩
        · -- the place would be between the carriage return and the line feed
          rcases within with visible | none
          · exact absurd (visible '\n' rfl) (by decide)
          · obtain ⟨rfl, rfl⟩ := List.append_eq_nil_iff.mp none
            simp at returns
        · rw [List.concat_eq_append] at *
          obtain rfl : last = '\r' := by simpa using returns
          refine ⟨front, before, behind, '\r' :: '\n' :: later, rfl, unbroken,
            ⟨by simp, closed, fun feed => noFeed ?_, .inr (.inr ⟨later, rfl⟩)⟩, ?_⟩
          · rw [← List.append_assoc]
            exact List.mem_append_left _ feed
          · intro char head visible
            have found := here char head visible
            cases behind with
            | cons first others => exact found
            | nil =>
                cases found
                exact absurd visible (by decide)
      · exact ⟨front, before, tail, _, rfl, unbroken,
          ⟨by simp, closed, noFeed, .inr (.inl ⟨later, rfl, returns⟩)⟩, here⟩

end Text

theorem Loc.behind_append (file : String) {front before : List Char}
    (closed : ∀ last ∈ front.getLast?, last = '\n') (unbroken : '\n' ∉ before) :
    (behind file (front ++ before)).line = 1 + front.count '\n' ∧
      (behind file (front ++ before)).col = 1 + before.length := by
  have none : before.count '\n' = 0 := List.count_eq_zero.mpr unbroken
  have own : ∀ char ∈ before.reverse, decide (char ≠ '\n') = true := by
    intro char member
    refine decide_eq_true ?_
    rintro rfl
    exact unbroken (List.mem_reverse.mp member)
  have ended : front.reverse.takeWhile (· ≠ '\n') = [] := by
    cases reversed : front.reverse with
    | nil => rfl
    | cons last others =>
        have feed := closed last (by rw [← List.head?_reverse, reversed]; rfl)
        simp [feed]
  constructor
  · simp [behind, none]
  · simp only [behind]
    rw [List.reverse_append, List.takeWhile_append_of_pos own, ended, List.append_nil,
      List.length_reverse]

namespace Fragment

/-- The diagnostics with which a source is refused: it cannot be read, its constructs cannot be
moved, or the invocations of a macro in it cannot be expanded. -/
inductive Refuses (settings : Settings) (macroName source file : String) : Diagnostic → Prop where
  | read {failure : Failure} (failed : read source file = .error failure) :
      Refuses settings macroName source file (failureIn source failure)
  | front {diagnostic : Diagnostic} (failed : frontSource settings source file = .error diagnostic) :
      Refuses settings macroName source file diagnostic
  | expand {diagnostic : Diagnostic}
      (failed : expandSource settings macroName source file = .error (.refused diagnostic)) :
      Refuses settings macroName source file diagnostic

variable {settings : Settings} {macroName source file : String} {diagnostic : Diagnostic}

theorem Refuses.starts (refuses : Refuses settings macroName source file diagnostic) :
    ∃ failure ahead, diagnostic = failureIn source failure ∧
      failure.Starts file source.toList ahead := by
  cases refuses with
  | @read failure failed =>
      obtain ⟨ahead, starts⟩ := read_starts failed
      exact ⟨failure, ahead, rfl, starts⟩
  | front failed =>
      unfold frontSource at failed
      split at failed
      · rename_i failure unread
        obtain ⟨ahead, starts⟩ := read_starts unread
        exact ⟨failure, ahead, (Except.error.inj failed).symm, starts⟩
      · rename_i fragment lexed
        split at failed
        · rename_i failure ran
          have blames := front_blames (isPlaced_of_read lexed) ran
          obtain ⟨ahead, starts⟩ := starts_of_blames lexed blames
          exact ⟨failure, ahead, (Except.error.inj failed).symm, starts⟩
        · contradiction
  | expand failed =>
      unfold expandSource at failed
      split at failed
      · rename_i failure unread
        obtain ⟨ahead, starts⟩ := read_starts unread
        exact ⟨failure, ahead, (Halt.refused.inj (Except.error.inj failed)).symm, starts⟩
      · rename_i fragment lexed
        split at failed
        · rename_i failure _ stopped
          obtain ⟨ahead, starts⟩ := starts_of_blames lexed
            (expand_blames (isPlaced_of_read lexed) (by rw [stopped]))
          exact ⟨failure, ahead, (Halt.refused.inj (Except.error.inj failed)).symm, starts⟩
        · cases failed
        · contradiction

theorem sourceLine_failureIn {failure : Failure} {number : Nat}
    (line : failure.span.line = 1 + number) (source : String) :
    (failureIn source failure).span = failure.span ∧
      (failureIn source failure).sourceLine =
        String.ofList (((Text.splitLines source.toList)[number]?).getD []) := by
  have positive : 0 < failure.diagnostic.span.line := by
    change 0 < failure.span.line
    omega
  have index : failure.diagnostic.span.line.toNat - 1 = number := by
    change failure.span.line.toNat - 1 = number
    omega
  rw [failureIn, Diagnostic.withSource, if_pos positive, index, Text.lines, List.getElem?_map]
  cases (Text.splitLines source.toList)[number]? <;> exact ⟨rfl, rfl⟩

/-- Where a source is refused and what is shown of it.  The place is known, and lies in the line of
the source with its number, as many characters from the start of that line as its column says; there
begins what is to blame, if it is not the source as a whole.

What is shown is that line up to its first break of any kind, if only line feeds come before it; so
it is the line in a source that has no other breaks.  With another break in front of it, an earlier
stretch of the source is shown. -/
theorem sourceLine_of_refused (refuses : Refuses settings macroName source file diagnostic) :
    diagnostic.span.file = file ∧ ∃ front before behind back,
      Text.IsLine source.toList front (before ++ behind) back ∧
      diagnostic.span.line = 1 + front.count '\n' ∧
      diagnostic.span.column = 1 + before.length ∧
      ((∃ char, behind.head? = some char ∧ Text.isBlank char = false) ∨ front ++ before = []) ∧
      (Text.strayBreaks front = 0 → diagnostic.sourceLine =
        String.ofList ((before ++ behind).takeWhile (!Text.isLineBreak ·))) ∧
      (Text.strayBreaks source.toList = 0 →
        diagnostic.sourceLine = String.ofList (before ++ behind)) ∧
      (0 < Text.strayBreaks front → ∃ shown,
        (Text.splitLines front)[front.count '\n']? = some shown ∧
          diagnostic.sourceLine = String.ofList shown) := by
  obtain ⟨failure, ahead, rfl, sameFile, sameLine, sameColumn, within⟩ := refuses.starts
  have split : ∃ rest, source.toList = ahead ++ rest ∧
      ((∃ char, rest.head? = some char ∧ Text.isBlank char = false) ∨ ahead = []) := by
    rcases within with ⟨char, rest, whole, visible⟩ | none
    · exact ⟨_, whole, .inl ⟨char, rfl, visible⟩⟩
    · exact ⟨_, by rw [none]; rfl, .inr none⟩
  obtain ⟨rest, whole, begins⟩ := split
  obtain ⟨front, before, behind, back, rfl, unbroken, isLine, here⟩ := Text.exists_isLine
    (begins.imp_left fun ⟨char, head, visible⟩ other same => by
      rw [head] at same
      cases same
      exact visible)
  rw [← whole] at isLine
  obtain ⟨number, column⟩ := Loc.behind_append file isLine.starts unbroken
  rw [number] at sameLine
  rw [column] at sameColumn
  obtain ⟨span, shown⟩ := sourceLine_failureIn sameLine source
  rw [span, shown]
  refine ⟨sameFile, front, before, behind, back, isLine, sameLine, sameColumn, ?_, ?_, ?_, ?_⟩
  · refine begins.imp_left ?_
    rintro ⟨char, head, visible⟩
    exact ⟨char, here char head visible, visible⟩
  · intro none
    rw [isLine.shown_of_strayBreaks_eq_zero none]
  · intro none
    have plain := isLine.unbroken_of_strayBreaks none
    rw [isLine.whole, Text.strayBreaks_append isLine.starts, Nat.add_eq_zero_iff] at none
    rw [isLine.shown_of_strayBreaks_eq_zero none.1, List.takeWhile_eq_self_iff.mpr]
    intro char member
    rw [plain char member]
    rfl
  · intro stray
    obtain ⟨line, found, same⟩ := isLine.exists_shown stray
    exact ⟨line, found, by rw [same, Option.getD_some]⟩

/-- An unknown construct in the second line, which a carriage return and a line feed end. -/
theorem sourceLine_of_refused_unknown :
    ∃ diagnostic front before behind back,
      Refuses {} "" "a\r\nx::(frob)\r\n" "main.rs" diagnostic ∧
      Text.IsLine "a\r\nx::(frob)\r\n".toList front (before ++ behind) back ∧
      diagnostic.span.line = 1 + front.count '\n' ∧
      diagnostic.span.column = 1 + before.length ∧ diagnostic.span.column = 5 ∧
      diagnostic.sourceLine = String.ofList (before ++ behind) ∧
      before ++ behind = "x::(frob)".toList := by
  have run : (match frontSource {} "a\r\nx::(frob)\r\n" "main.rs" with
      | .error diagnostic =>
          diagnostic.span.column == 5 && diagnostic.sourceLine == "x::(frob)"
      | .ok _ => false) = true := by
    decide +kernel
  cases failed : frontSource {} "a\r\nx::(frob)\r\n" "main.rs" with
  | ok output => simp [failed] at run
  | error diagnostic =>
      simp only [failed, Bool.and_eq_true, beq_iff_eq] at run
      have refuses : Refuses {} "" "a\r\nx::(frob)\r\n" "main.rs" diagnostic := .front failed
      obtain ⟨-, front, before, behind, back, isLine, line, column, -, -, plain, -⟩ :=
        sourceLine_of_refused refuses
      have shown := plain (by decide)
      refine ⟨diagnostic, front, before, behind, back, refuses, isLine, line, column, run.1, shown,
        ?_⟩
      rw [run.2] at shown
      simpa using congrArg String.toList shown.symm

/-- Behind a form feed the line before is shown. -/
theorem sourceLine_behind_formFeed :
    ∃ diagnostic front line back,
      frontSource {} "a\x0cb\nx::(frob)" "main.rs" = .error diagnostic ∧
      Text.IsLine "a\x0cb\nx::(frob)".toList front line back ∧
      diagnostic.span.line = 1 + front.count '\n' ∧
      line = "x::(frob)".toList ∧ diagnostic.sourceLine = "b" := by
  have run : (match frontSource {} "a\x0cb\nx::(frob)" "main.rs" with
      | .error diagnostic => diagnostic.span.line == 2 && diagnostic.sourceLine == "b"
      | .ok _ => false) = true := by
    decide +kernel
  cases failed : frontSource {} "a\x0cb\nx::(frob)" "main.rs" with
  | ok output => simp [failed] at run
  | error diagnostic =>
      simp only [failed, Bool.and_eq_true, beq_iff_eq] at run
      refine ⟨diagnostic, "a\x0cb\n".toList, _, [], rfl, ⟨by decide, by simp, by decide, .inl rfl⟩,
        run.1, rfl, run.2⟩

end Fragment

end Headfirst
