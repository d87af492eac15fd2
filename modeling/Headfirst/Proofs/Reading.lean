import Headfirst.Proofs.Nesting
import Headfirst.Proofs.Scan

namespace Headfirst

/-! The grammar and the scan read the same.

A stream reads what the scan reads until it ends, and it ends where the scan has something
other to do than to go on with a token or with a whole group.  So a group that does not
match is one in which the scan runs into what is wrong with the text, and the walk into such
groups finds just that. -/

namespace Fragment

open Grammar

variable {opened : List Opened} {before : List Tree} {leading : String} {loc : Loc}
  {text : List Char}

/-- The scan ends at what is wrong with the text. -/
def Scanned.IsFault : Scanned → Prop
  | .complete .. | .tooDeep => False
  | .noToken _ | .stray _ | .unclosed _ => True

/-- No tree begins in front of the scan, so that it cannot go on among these siblings. -/
def Stuck (opened : List Opened) (before : List Tree) (leading : String) (loc : Loc) :
    List Char → Prop
  | [] => True
  | char :: rest =>
      (closerDelimiter? char).isSome ∨
      (openerDelimiter? char).isSome ∧
        (scanTree opened before leading loc (char :: rest)).IsFault ∨
      scanTree opened before leading loc (char :: rest) = .noToken ⟨loc, char⟩

theorem Stuck.isFault {char : Char} {rest : List Char}
    (stuck : Stuck opened before leading loc (char :: rest))
    (noCloser : closerDelimiter? char = none) :
    (scanTree opened before leading loc (char :: rest)).IsFault := by
  rcases stuck with closes | ⟨-, fault⟩ | noToken
  · simp [noCloser] at closes
  · exact fault
  · rw [noToken]
    trivial

/-- A stuck scan can only go on by closing the innermost bracket. -/
theorem Stuck.isFault_of_open {innermost : Opened} {delimiter : Delimiter}
    (stuck : Stuck (innermost :: opened) before leading loc text)
    (opens : openerDelimiter? innermost.spot.char = some delimiter)
    (unmatched : ∀ char ∈ text.head?, closerDelimiter? char ≠ some delimiter) :
    (scanTree (innermost :: opened) before leading loc text).IsFault := by
  match text with
  | [] =>
      rw [scanTree_unclosed]
      trivial
  | char :: rest =>
      cases closes : closerDelimiter? char with
      | none => exact stuck.isFault closes
      | some other =>
          have ne : delimiter ≠ other := fun same => unmatched char rfl (same ▸ closes)
          rw [scanTree_closer closes, opens, if_neg (by simpa using ne)]
          trivial

/-- The scan goes on where a stream ends, and is too deep where the grammar is. -/
def StreamAgrees (opened : List Opened) (before : List Tree) (loc : Loc) (text : List Char) :
    Attempt Stretch → Prop
  | .matched stretch taken =>
      scan opened before loc text =
        scanTree opened (stretch.trees.reverse ++ before) stretch.trailing
          (loc.past (text.take taken)) (text.drop taken) ∧
      Stuck opened (stretch.trees.reverse ++ before) stretch.trailing
        (loc.past (text.take taken)) (text.drop taken)
  | .failed => False
  | .tooDeep => scan opened before loc text = .tooDeep

def TreeAgrees (opened : List Opened) (before : List Tree) (leading : String) (loc : Loc)
    (text : List Char) : Attempt Tree → Prop
  | .matched tree (further + 1) =>
      scanTree opened before leading loc text =
        scan opened (tree.withLeading leading :: before) (loc.past (text.take (further + 1)))
          (text.drop (further + 1))
  | .matched _ 0 | .failed => Stuck opened before leading loc text
  | .tooDeep => scanTree opened before leading loc text = .tooDeep

theorem past_take_add (loc : Loc) (text : List Char) (count more : Nat) :
    loc.past (text.take (count + more)) =
      (loc.past (text.take count)).past ((text.drop count).take more) := by
  rw [List.take_add, Loc.past_append]

theorem stream_agrees {trees : Rule Tree}
    (agrees : ∀ before leading loc text,
      TreeAgrees opened before leading loc text (trees loc text))
    (before : List Tree) (loc : Loc) (text : List Char) :
    StreamAgrees opened before loc text (stream trees loc text) := by
  fun_induction stream trees loc text generalizing before with
  | case1 loc text ahead leading ended => exact ⟨scan_eq .., by rw [ended]; trivial⟩
  | case2 loc text ahead char rest found tooDeep =>
      have here := agrees before (String.ofList (text.take ahead)) (loc.past (text.take ahead))
        (char :: rest)
      rw [tooDeep] at here
      exact (scan_eq ..).trans (by rw [found]; exact here)
  | case3 loc text ahead leading char rest found first further read lexeme ih =>
      have here := agrees before leading (loc.past (text.take ahead)) (char :: rest)
      rw [read] at here
      have start : scan opened before loc text =
          scan opened (first.withLeading leading :: before)
            ((loc.past (text.take ahead)).past lexeme) (rest.drop further) :=
        (scan_eq ..).trans (by rw [found]; exact here)
      have later := ih (first.withLeading leading :: before)
      generalize stream trees _ (rest.drop further) = attempt at later
      cases attempt with
      | matched stretch taken =>
          have places : loc.past (text.take (ahead + (further + 1) + taken)) =
              ((loc.past (text.take ahead)).past lexeme).past ((rest.drop further).take taken) := by
            rw [past_take_add, past_take_add, ← List.drop_drop, found]
            rfl
          have behind : text.drop (ahead + (further + 1) + taken) =
              (rest.drop further).drop taken := by
            rw [← List.drop_drop, ← List.drop_drop, found]
            rfl
          simpa only [StreamAgrees, Attempt.map, start, places, behind, List.reverse_cons,
            List.append_assoc, List.singleton_append] using later
      | failed => exact later
      | tooDeep => exact start.trans later
  | case4 loc text ahead leading char rest found deep none =>
      have here := agrees before leading (loc.past (text.take ahead)) (char :: rest)
      refine ⟨scan_eq .., ?_⟩
      show Stuck opened before leading _ (text.drop ahead)
      rw [found]
      generalize trees _ (char :: rest) = attempt at deep none here
      cases attempt with
      | tooDeep => contradiction
      | matched first taken =>
          cases taken with
          | zero => exact here
          | succ further => exact absurd rfl (none first further)
      | failed => exact here

theorem token_agrees {char : Char} {rest : List Char} (noOpener : openerDelimiter? char = none) :
    TreeAgrees opened before leading loc (char :: rest) (token loc (char :: rest)) := by
  cases closes : closerDelimiter? char with
  | some delimiter =>
      simp only [token, Lexeme.first_closer closes]
      exact .inl (by rw [closes]; rfl)
  | none =>
      have noToken (none : ∀ kind further, Lexeme.first (char :: rest) ≠ some (kind, further + 1)) :
          Stuck opened before leading loc (char :: rest) :=
        .inr (.inr (scanTree_noToken noOpener closes none))
      cases read : Lexeme.first (char :: rest) with
      | none =>
          simp only [token, read]
          exact noToken (by simp [read])
      | some first =>
          obtain ⟨kind, taken⟩ := first
          cases taken with
          | zero =>
              simp only [token, read]
              exact noToken (by simp [read])
          | succ further =>
              simp only [token, read]
              exact scanTree_token read

section

variable {inside : Rule Stretch}
  (agrees : opened.length < maxNesting → ∀ innermost loc text,
    StreamAgrees (innermost :: opened) [] loc text (inside loc text))
  (deep : ¬ opened.length < maxNesting → ∀ loc text, inside loc text = .tooDeep)

include agrees deep

theorem group_agrees {char : Char} {rest : List Char} {delimiter : Delimiter}
    (opens : openerDelimiter? char = some delimiter) :
    TreeAgrees opened before leading loc (char :: rest)
      (group delimiter inside loc (char :: rest)) := by
  have start : scanTree opened before leading loc (char :: rest) = _ := scanTree_opener opens
  by_cases fits : opened.length < maxNesting
  · rw [if_pos fits] at start
    have within := agrees fits ⟨⟨loc, char⟩, leading, before⟩ (loc.next char) rest
    simp only [group, if_pos opens]
    generalize inside (loc.next char) rest = attempt at within
    cases attempt with
    | failed => exact within.elim
    | tooDeep => exact start.trans within
    | matched stretch taken =>
        obtain ⟨goesOn, stuck⟩ := within
        rw [goesOn] at start
        have notMatched (unmatched : ∀ closing ∈ (rest.drop taken).head?,
            closerDelimiter? closing ≠ some delimiter) :
            Stuck opened before leading loc (char :: rest) :=
          .inr (.inl ⟨by rw [opens]; rfl, by
            rw [start]
            exact stuck.isFault_of_open opens unmatched⟩)
        cases behind : rest.drop taken with
        | nil =>
            simp only [behind]
            exact notMatched (by simp [behind])
        | cons closing later =>
            by_cases closes : closerDelimiter? closing = some delimiter
            · simp only [behind, if_pos closes]
              rw [behind, scanTree_closer closes, if_pos opens] at start
              have places : loc.past ((char :: rest).take (taken + 2)) =
                  ((loc.next char).past (rest.take taken)).next closing := by
                rw [List.take_succ_cons, List.take_add, behind]
                exact Loc.past_append (loc.next char) _ _
              have dropping : rest.drop (taken + 1) = later := by
                rw [← List.drop_drop, behind]
                rfl
              rw [List.append_nil, List.reverse_reverse] at start
              simp only [TreeAgrees, places, List.drop_succ_cons, dropping]
              exact start
            · simp only [behind, if_neg closes]
              exact notMatched (by simpa [behind] using closes)
  · rw [if_neg fits] at start
    simp only [group, if_pos opens, deep fits]
    exact start

theorem tree_agrees (before : List Tree) (leading : String) (loc : Loc) (text : List Char) :
    TreeAgrees opened before leading loc text (Grammar.tree inside loc text) := by
  cases text with
  | nil => rw [tree_nil]; trivial
  | cons char rest =>
      cases opens : openerDelimiter? char with
      | none => rw [tree_noOpener opens]; exact token_agrees opens
      | some delimiter => rw [tree_opener opens]; exact group_agrees agrees deep opens

end

theorem nested_agrees {depth : Nat} (fits : opened.length + depth = maxNesting)
    (before : List Tree) (loc : Loc) (text : List Char) :
    StreamAgrees opened before loc text (nested depth loc text) := by
  induction depth generalizing opened before loc text with
  | zero =>
      have full : ¬opened.length < maxNesting := by omega
      exact stream_agrees (tree_agrees (fun less => absurd less full) fun _ _ _ => rfl) before loc
        text
  | succ depth ih =>
      refine stream_agrees (tree_agrees (fun _ innermost loc text => ?_) fun notLess => ?_)
        before loc text
      · exact ih (by simp only [List.length_cons]; omega) [] loc text
      · omega

/-- The nesting inside the open brackets is bounded as if there were none. -/
theorem nested_max_agrees (fits : opened.length ≤ maxNesting)
    (shallow : scan opened before loc text ≠ .tooDeep) :
    StreamAgrees opened before loc text (nested maxNesting loc text) := by
  obtain ⟨depth, left⟩ := Nat.exists_eq_add_of_le fits
  have agrees := nested_agrees left.symm before loc text
  rcases nested_of_le (by omega : depth ≤ maxNesting) loc text with tooDeep | same
  · rw [tooDeep] at agrees
    exact absurd agrees shallow
  · rwa [same]

/-! The walk into groups that do not match ends where the scan ends. -/

/-- The character a scan ends at. -/
def Scanned.spot (outermost : Spot) : Scanned → Spot
  | .noToken spot | .stray spot | .unclosed spot => spot
  | .complete .. | .tooDeep => outermost

theorem scan_enter (fits : opened.length ≤ maxNesting)
    (shallow : scan opened before loc text ≠ .tooDeep) :
    ∃ opened' before', (enter (opened.map (·.spot)) loc text).1 = opened'.map (·.spot) ∧
      opened'.length ≤ maxNesting ∧
      scan opened before loc text =
        scan opened' before' (enter (opened.map (·.spot)) loc text).2.1
          (enter (opened.map (·.spot)) loc text).2.2 := by
  cases text with
  | nil => exact ⟨opened, before, rfl, fits, rfl⟩
  | cons char rest =>
      cases opens : openerDelimiter? char with
      | none =>
          have same : enter (opened.map (·.spot)) loc (char :: rest) =
              (opened.map (·.spot), loc, char :: rest) := by
            simp [enter, opens]
          rw [same]
          exact ⟨opened, before, rfl, fits, rfl⟩
      | some delimiter =>
          have inside : enter (opened.map (·.spot)) loc (char :: rest) =
              (⟨loc, char⟩ :: opened.map (·.spot), loc.next char, rest) := by
            simp [enter, opens]
          have start : scan opened before loc (char :: rest) =
              scanTree opened before "" loc (char :: rest) := by
            rw [scan_eq, Trivia.length_opener opens]
            rfl
          rw [inside]
          rw [start, scanTree_opener opens] at shallow ⊢
          by_cases less : opened.length < maxNesting
          · rw [if_pos less]
            exact ⟨⟨⟨loc, char⟩, "", before⟩ :: opened, [], rfl, less, rfl⟩
          · rw [if_neg less] at shallow
            contradiction

theorem walk_eq (outermost : Spot) (fits : opened.length ≤ maxNesting)
    (shallow : scan opened before loc text ≠ .tooDeep) :
    walk outermost (opened.map (·.spot)) loc text =
      (scan opened before loc text).spot outermost := by
  generalize same : opened.map (·.spot) = marks
  have agrees := nested_max_agrees fits shallow
  fun_induction walk outermost marks loc text generalizing opened before with
  | case1 marks loc text stretch taken read ended =>
      rw [read] at agrees
      obtain ⟨goesOn, -⟩ := agrees
      rw [goesOn, ended]
      cases opened with
      | nil =>
          rw [scanTree_complete, ← same]
          rfl
      | cons innermost outer =>
          rw [scanTree_unclosed, ← same]
          rfl
  | case2 loc text stretch taken read stop char rest found delimiter innermost outer closes opens =>
      rename_i ih
      rw [read] at agrees
      obtain ⟨goesOn, -⟩ := agrees
      obtain ⟨top, opened, rfl, rfl, rfl⟩ := List.map_eq_cons_iff.mp same
      rw [found, scanTree_closer closes, if_pos opens] at goesOn
      rw [goesOn] at shallow ⊢
      obtain ⟨opened', before', marks, fits', entered⟩ :=
        scan_enter (Nat.le_of_succ_le fits) shallow
      rw [entered] at shallow ⊢
      exact ih fits' shallow marks.symm (nested_max_agrees fits' shallow)
  | case3 loc text stretch taken read stop char rest found delimiter innermost outer closes =>
      rename_i ne
      rw [read] at agrees
      obtain ⟨goesOn, -⟩ := agrees
      obtain ⟨top, opened, rfl, rfl, rfl⟩ := List.map_eq_cons_iff.mp same
      rw [goesOn, found, scanTree_closer closes, if_neg ne]
      rfl
  | case4 loc text stretch taken read stop char rest found delimiter =>
      rename_i closes
      rw [read] at agrees
      obtain ⟨goesOn, -⟩ := agrees
      obtain rfl := List.map_eq_nil_iff.mp same
      rw [goesOn, found, scanTree_strayCloser closes]
      rfl
  | case5 marks loc text stretch taken read stop char rest found closes opens =>
      rename_i ih
      rw [read] at agrees
      obtain ⟨goesOn, -⟩ := agrees
      obtain ⟨delimiter, opens⟩ := Option.isSome_iff_exists.mp opens
      rw [found, scanTree_opener opens] at goesOn
      by_cases less : opened.length < maxNesting
      · rw [if_pos less] at goesOn
        rw [goesOn] at shallow ⊢
        exact ih less shallow (by rw [← same]; rfl) (nested_max_agrees less shallow)
      · rw [goesOn, if_neg less] at shallow
        contradiction
  | case6 marks loc text stretch taken read stop char rest found closes =>
      rename_i opens
      rw [read] at agrees
      obtain ⟨goesOn, stuck⟩ := agrees
      rw [found] at goesOn stuck
      rcases stuck with closes' | ⟨opens', -⟩ | noToken
      · simp [closes] at closes'
      · contradiction
      · rw [goesOn, noToken]
        rfl
  | case7 marks loc text noMatch =>
      generalize nested maxNesting loc text = attempt at agrees noMatch
      match attempt with
      | .matched stretch taken => exact (noMatch stretch taken rfl).elim
      | .failed => exact agrees.elim
      | .tooDeep => exact absurd agrees shallow

/-- What the scan of a whole source amounts to. -/
def Scanned.outcome (source file : String) : Scanned → Except Failure Fragment
  | .complete trees trailing =>
      .ok ⟨{ delimiter := .invisible, loc := .start file, closeLeading := trailing }, trees⟩
  | .noToken spot | .stray spot | .unclosed spot => .error spot.failure
  | .tooDeep =>
      .error ⟨.bracketsTooDeep, .point (firstOpener (.start file) source.toList), none⟩

theorem Scanned.outcome_of_isFault {scanned : Scanned} (fault : scanned.IsFault) (outermost : Spot)
    (source file : String) :
    scanned.outcome source file = .error (scanned.spot outermost).failure := by
  cases scanned with
  | noToken | stray | unclosed => rfl
  | complete | tooDeep => exact fault.elim

theorem culprit_eq {char : Char} {rest : List Char}
    (stuck : Stuck [] before leading loc (char :: rest)) (source file : String) :
    (scanTree [] before leading loc (char :: rest)).outcome source file =
      .error (culprit ⟨loc, char⟩ rest).failure := by
  cases opens : openerDelimiter? char with
  | some delimiter =>
      have fault := stuck.isFault (closerDelimiter?_opener opens)
      have isOpener : (⟨loc, char⟩ : Spot).isOpener := Option.isSome_of_eq_some opens
      have start : scanTree [] before leading loc (char :: rest) = _ := scanTree_opener opens
      rw [if_pos (by decide)] at start
      rw [start] at fault ⊢
      rw [Scanned.outcome_of_isFault fault ⟨loc, char⟩, culprit, if_pos isOpener]
      have shallow : scan [⟨⟨loc, char⟩, leading, before⟩] [] (loc.next char) rest ≠ .tooDeep :=
        fun deep => by rw [deep] at fault; exact fault
      have found := walk_eq ⟨loc, char⟩ (by simp [maxNesting, Stack.frames, Stack.parsing]) shallow
      rw [← found]
      rfl
  | none =>
      have noOpener : ¬(⟨loc, char⟩ : Spot).isOpener := by simp [Spot.isOpener, opens]
      rw [culprit, if_neg noOpener]
      cases closes : closerDelimiter? char with
      | some delimiter =>
          rw [scanTree_strayCloser closes]
          rfl
      | none =>
          rcases stuck with closes' | ⟨opens', -⟩ | noToken
          · simp [closes] at closes'
          · simp [opens] at opens'
          · rw [noToken]
            rfl

theorem read_eq (source file : String) :
    read source file =
      (scan [] [] (.start file) source.toList).outcome source file := by
  have agrees : StreamAgrees [] [] (.start file) source.toList _ :=
    nested_agrees (Nat.zero_add maxNesting) [] (.start file) source.toList
  rw [read]
  generalize nested maxNesting (.start file) source.toList = attempt at agrees
  match attempt with
  | .failed => exact agrees.elim
  | .tooDeep =>
      have deep : scan [] [] (.start file) source.toList = .tooDeep := agrees
      rw [deep]
      rfl
  | .matched stretch taken =>
      obtain ⟨goesOn, stuck⟩ := agrees
      rw [goesOn]
      match ended : source.toList.drop taken with
      | [] =>
          simp only [ended, scanTree_complete, Scanned.outcome, List.append_nil,
            List.reverse_reverse]
      | char :: rest =>
          rw [ended] at stuck
          simp only [ended, culprit_eq stuck]

theorem read_of_scan {source file : String} {trees : List Tree} {trailing : String}
    (scanned : scan [] [] (.start file) source.toList = .complete trees trailing) :
    read source file =
      .ok ⟨{ delimiter := .invisible, loc := .start file, closeLeading := trailing }, trees⟩ := by
  rw [read_eq, scanned]
  rfl

theorem scan_of_read {source file : String} {fragment : Fragment}
    (done : read source file = .ok fragment) :
    scan [] [] (.start file) source.toList =
        .complete fragment.children fragment.bracket.closeLeading ∧
      fragment.bracket =
        { delimiter := .invisible
          loc := .start file
          closeLeading := fragment.bracket.closeLeading } := by
  rw [read_eq] at done
  cases scanned : scan [] [] (.start file) source.toList with
  | complete trees trailing =>
      rw [scanned] at done
      cases done
      exact ⟨rfl, rfl⟩
  | noToken | stray | unclosed | tooDeep =>
      rw [scanned] at done
      cases done

/-- What the steps of the scan preserve holds of a fragment that was read. -/
theorem Preserved.of_read {holds : List Opened → List Tree → List Char → Prop}
    (preserved : Preserved holds) {source file : String} {fragment : Fragment}
    (start : holds [] [] source.toList) (done : read source file = .ok fragment) :
    holds [] fragment.children.reverse fragment.bracket.closeLeading.toList ∧
      fragment.bracket.closeLeading.toList.drop
        (Trivia.length fragment.bracket.closeLeading.toList) = [] := by
  have reached := preserved.reached [] [] (.start file) source.toList start
  rw [(scan_of_read done).1] at reached
  exact reached

theorem PreservedAt.of_read {holds : List Opened → List Tree → Loc → List Char → Prop}
    (preserved : PreservedAt holds) {source file : String} {fragment : Fragment}
    (start : holds [] [] (.start file) source.toList) (done : read source file = .ok fragment) :
    ∃ loc, holds [] fragment.children.reverse loc fragment.bracket.closeLeading.toList := by
  have reached := preserved.reached [] [] (.start file) source.toList start
  rw [(scan_of_read done).1] at reached
  exact reached.1

end Fragment

theorem exists_ok_of_any {ε α : Type} {outcome : Except ε α} {test : α → Bool}
    (holds : outcome.toOption.any test = true) :
    ∃ value, outcome = .ok value ∧ test value = true := by
  cases outcome with
  | error failure => contradiction
  | ok value => exact ⟨value, rfl, holds⟩

end Headfirst
