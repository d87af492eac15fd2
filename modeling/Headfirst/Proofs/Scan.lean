import Headfirst.Fragment.Read
import Headfirst.Proofs.Nesting

namespace Headfirst.Fragment

open Grammar (maxNesting)

/-! A source text read in one pass from left to right, with a stack of open brackets.  The
scan never goes back: it ends where no token begins, at a closing bracket that is not the
innermost open one's, or with the text. -/

/-- A bracket that is still open, and what stood before it among its siblings, nearest
first. -/
structure Opened where
  spot : Spot
  leading : String
  before : List Tree

inductive Scanned where
  | complete (trees : List Tree) (trailing : String)
  /-- A character at which no token and no bracket begins. -/
  | noToken (spot : Spot)
  /-- A closing bracket that does not match the innermost open one. -/
  | stray (closer : Spot)
  /-- The end of the text, with the innermost of the brackets that are still open. -/
  | unclosed (opener : Spot)
  | tooDeep

mutual

/-- Reads trivia and goes on with a tree.  `before` are the trees read so far in the
innermost open bracket, nearest first. -/
def scan (opened : List Opened) (before : List Tree) (loc : Loc) (text : List Char) : Scanned :=
  let gap := text.take (Trivia.length text)
  scanTree opened before (String.ofList gap) (loc.past gap) (text.drop (Trivia.length text))
termination_by 2 * text.length + 1
decreasing_by
  rw [List.length_drop]
  omega

/-- Reads a bracket or a token, which is where the trivia `leading` ends. -/
def scanTree (opened : List Opened) (before : List Tree) (leading : String) (loc : Loc) :
    (text : List Char) → Scanned
  | [] =>
      match opened with
      | [] => .complete before.reverse leading
      | innermost :: _ => .unclosed innermost.spot
  | char :: rest =>
      match openerDelimiter? char, closerDelimiter? char with
      | some _, _ =>
          if opened.length < maxNesting then
            scan (⟨⟨loc, char⟩, leading, before⟩ :: opened) [] (loc.next char) rest
          else .tooDeep
      | none, some delimiter =>
          match opened with
          | [] => .stray ⟨loc, char⟩
          | innermost :: outer =>
              if openerDelimiter? innermost.spot.char = some delimiter then
                let bracket := ⟨delimiter, innermost.spot.loc, loc, innermost.leading, leading⟩
                scan outer (.group bracket before.reverse :: innermost.before) (loc.next char) rest
              else .stray ⟨loc, char⟩
      | none, none =>
          match Lexeme.first (char :: rest) with
          | some (kind, further + 1) =>
              let lexeme := char :: rest.take further
              let token := ⟨kind, String.ofList lexeme, loc, leading⟩
              scan opened (.leaf token :: before) (loc.past lexeme) (rest.drop further)
          | _ => .noToken ⟨loc, char⟩
termination_by text => 2 * text.length
decreasing_by
  all_goals
    simp only [List.length_cons, List.length_drop]
    omega

end

/-! One step of the scan, by what stands in front of it. -/

section

variable {char : Char} {delimiter : Delimiter} {opened : List Opened} {before : List Tree}
  {leading : String} {loc : Loc} {rest : List Char}

theorem scan_eq (opened : List Opened) (before : List Tree) (loc : Loc) (text : List Char) :
    scan opened before loc text =
      scanTree opened before (String.ofList (text.take (Trivia.length text)))
        (loc.past (text.take (Trivia.length text))) (text.drop (Trivia.length text)) := by
  rw [scan]

theorem scanTree_complete :
    scanTree [] before leading loc [] = .complete before.reverse leading := by
  rw [scanTree]

theorem scanTree_unclosed {innermost : Opened} :
    scanTree (innermost :: opened) before leading loc [] = .unclosed innermost.spot := by
  rw [scanTree]

theorem scanTree_opener (opens : openerDelimiter? char = some delimiter) :
    scanTree opened before leading loc (char :: rest) =
      if opened.length < maxNesting then
        scan (⟨⟨loc, char⟩, leading, before⟩ :: opened) [] (loc.next char) rest
      else .tooDeep := by
  rw [scanTree, opens]

theorem scanTree_strayCloser (closes : closerDelimiter? char = some delimiter) :
    scanTree [] before leading loc (char :: rest) = .stray ⟨loc, char⟩ := by
  rw [scanTree, openerDelimiter?_closer closes, closes]

theorem scanTree_closer {innermost : Opened} (closes : closerDelimiter? char = some delimiter) :
    scanTree (innermost :: opened) before leading loc (char :: rest) =
      if openerDelimiter? innermost.spot.char = some delimiter then
        scan opened
          (.group ⟨delimiter, innermost.spot.loc, loc, innermost.leading, leading⟩ before.reverse ::
            innermost.before)
          (loc.next char) rest
      else .stray ⟨loc, char⟩ := by
  rw [scanTree, openerDelimiter?_closer closes, closes]

theorem scanTree_token {kind : TokenKind} {further : Nat}
    (token : Lexeme.first (char :: rest) = some (kind, further + 1)) :
    scanTree opened before leading loc (char :: rest) =
      scan opened
        (.leaf ⟨kind, String.ofList (char :: rest.take further), loc, leading⟩ :: before)
        (loc.past (char :: rest.take further)) (rest.drop further) := by
  rw [scanTree, openerDelimiter?_token token, closerDelimiter?_token token]
  simp only [token]

theorem scanTree_noToken (noOpener : openerDelimiter? char = none)
    (noCloser : closerDelimiter? char = none)
    (none : ∀ kind further, Lexeme.first (char :: rest) ≠ some (kind, further + 1)) :
    scanTree opened before leading loc (char :: rest) = .noToken ⟨loc, char⟩ := by
  rw [scanTree, noOpener, noCloser]
  simp only

end

/-! What every step of the scan preserves holds where the scan ends. -/

/-- A property of the brackets that are open, the trees before the scan, its place and the text
ahead of it, which no step of the scan destroys. -/
structure PreservedAt (holds : List Opened → List Tree → Loc → List Char → Prop) : Prop where
  opener : ∀ {opened before start loc text gap char rest delimiter},
    holds opened before start text → text.take (Trivia.length text) = gap → start.past gap = loc →
    text.drop (Trivia.length text) = char :: rest → openerDelimiter? char = some delimiter →
    holds (⟨⟨loc, char⟩, String.ofList gap, before⟩ :: opened) [] (loc.next char) rest
  closer : ∀ {innermost opened before start loc text gap char rest delimiter},
    holds (innermost :: opened) before start text →
    text.take (Trivia.length text) = gap → start.past gap = loc →
    text.drop (Trivia.length text) = char :: rest → closerDelimiter? char = some delimiter →
    openerDelimiter? innermost.spot.char = some delimiter →
    holds opened
      (.group ⟨delimiter, innermost.spot.loc, loc, innermost.leading, String.ofList gap⟩
          before.reverse :: innermost.before)
      (loc.next char) rest
  token : ∀ {opened before start loc text gap char rest kind further},
    holds opened before start text → text.take (Trivia.length text) = gap → start.past gap = loc →
    text.drop (Trivia.length text) = char :: rest →
    Lexeme.first (char :: rest) = some (kind, further + 1) →
    holds opened
      (.leaf ⟨kind, String.ofList (char :: rest.take further), loc, String.ofList gap⟩ :: before)
      (loc.past (char :: rest.take further)) (rest.drop further)

/-- What a scan ends at is what it says it is, and the property holds there. -/
def Scanned.Reached (holds : List Opened → List Tree → List Char → Prop) : Scanned → Prop
  | .complete trees trailing =>
      holds [] trees.reverse trailing.toList ∧
        trailing.toList.drop (Trivia.length trailing.toList) = []
  | .noToken spot => openerDelimiter? spot.char = none ∧ closerDelimiter? spot.char = none
  | .stray closer => (closerDelimiter? closer.char).isSome
  | .unclosed opener => ∃ innermost outer before text,
      holds (innermost :: outer) before text ∧ opener = innermost.spot
  | .tooDeep => True

theorem Scanned.Reached.mono {holds other : List Opened → List Tree → List Char → Prop}
    (implies : ∀ {opened before text}, holds opened before text → other opened before text)
    {scanned : Scanned} (reached : scanned.Reached holds) : scanned.Reached other := by
  cases scanned with
  | complete trees trailing => exact ⟨implies reached.1, reached.2⟩
  | noToken spot => exact reached
  | stray closer => exact reached
  | unclosed opener =>
      obtain ⟨innermost, outer, before, text, held, same⟩ := reached
      exact ⟨innermost, outer, before, text, implies held, same⟩
  | tooDeep => trivial

theorem PreservedAt.reached {holds : List Opened → List Tree → Loc → List Char → Prop}
    (preserved : PreservedAt holds) :
    ∀ (opened : List Opened) (before : List Tree) (loc : Loc) (text : List Char),
      holds opened before loc text →
        (scan opened before loc text).Reached fun opened before text =>
          ∃ loc, holds opened before loc text := by
  refine (scan.mutual_induct _ (fun opened before leading loc behind =>
    ∀ start text, holds opened before start text →
      leading = String.ofList (text.take (Trivia.length text)) →
      start.past (text.take (Trivia.length text)) = loc →
      text.drop (Trivia.length text) = behind →
      (scanTree opened before leading loc behind).Reached fun opened before text =>
        ∃ loc, holds opened before loc text)
    ?gap ?complete ?unclosed ?opener ?tooDeep ?strayCloser ?closer ?otherCloser ?token
    ?noToken).1
  case gap =>
    intro opened before loc text gap ih held
    rw [scan_eq]
    exact ih loc text held rfl rfl rfl
  case complete =>
    rintro before leading loc start text held rfl - ended
    have whole : text.take (Trivia.length text) = text :=
      List.take_of_length_le (List.drop_eq_nil_iff.mp ended)
    rw [scanTree_complete, whole]
    exact ⟨⟨start, by simpa using held⟩, by simpa using ended⟩
  case unclosed =>
    intro before leading loc innermost outer start text held _ _ _
    rw [scanTree_unclosed]
    exact ⟨innermost, outer, before, text, ⟨start, held⟩, rfl⟩
  case opener =>
    rintro opened before leading loc char rest delimiter opens fits ih start text held rfl here
      found
    rw [scanTree_opener opens, if_pos fits]
    exact ih (preserved.opener held rfl here found opens)
  case tooDeep =>
    intro opened before leading loc char rest delimiter opens full _ _ _ _ _ _
    rw [scanTree_opener opens, if_neg full]
    trivial
  case strayCloser =>
    intro before leading loc char rest delimiter closes _ _ _ _ _ _ _
    rw [scanTree_strayCloser closes]
    exact Option.isSome_of_eq_some closes
  case closer =>
    rintro before leading loc char rest delimiter closes _ innermost outer opens bracket ih start
      text held rfl here found
    rw [scanTree_closer closes, if_pos opens]
    exact ih (preserved.closer held rfl here found closes opens)
  case otherCloser =>
    intro before leading loc char rest delimiter closes _ innermost outer ne _ _ _ _ _ _
    rw [scanTree_closer closes, if_neg ne]
    exact Option.isSome_of_eq_some closes
  case token =>
    rintro opened before leading loc char rest _ _ kind further token lexeme tree ih start text held
      rfl here found
    rw [scanTree_token token]
    exact ih (preserved.token held rfl here found token)
  case noToken =>
    intro opened before leading loc char rest noCloser noOpener none _ _ _ _ _ _
    rw [scanTree_noToken noOpener noCloser none]
    exact ⟨noOpener, noCloser⟩

/-- A property of the brackets that are open, the trees before the scan and the text ahead
of it, which no step of the scan destroys. -/
structure Preserved (holds : List Opened → List Tree → List Char → Prop) : Prop where
  opener : ∀ {opened before loc text char rest delimiter}, holds opened before text →
    text.drop (Trivia.length text) = char :: rest → openerDelimiter? char = some delimiter →
    holds (⟨⟨loc, char⟩, String.ofList (text.take (Trivia.length text)), before⟩ :: opened) [] rest
  closer : ∀ {innermost opened before loc text char rest delimiter},
    holds (innermost :: opened) before text →
    text.drop (Trivia.length text) = char :: rest → closerDelimiter? char = some delimiter →
    openerDelimiter? innermost.spot.char = some delimiter →
    holds opened
      (.group ⟨delimiter, innermost.spot.loc, loc, innermost.leading,
          String.ofList (text.take (Trivia.length text))⟩ before.reverse :: innermost.before)
      rest
  token : ∀ {opened before loc text char rest kind further}, holds opened before text →
    text.drop (Trivia.length text) = char :: rest →
    Lexeme.first (char :: rest) = some (kind, further + 1) →
    holds opened
      (.leaf ⟨kind, String.ofList (char :: rest.take further), loc,
          String.ofList (text.take (Trivia.length text))⟩ :: before)
      (rest.drop further)

theorem Preserved.reached {holds : List Opened → List Tree → List Char → Prop}
    (preserved : Preserved holds) (opened : List Opened) (before : List Tree) (loc : Loc)
    (text : List Char) (held : holds opened before text) :
    (scan opened before loc text).Reached holds := by
  have anywhere : PreservedAt fun opened before _ text => holds opened before text := by
    refine ⟨?_, ?_, ?_⟩
    · intro _ _ _ _ _ _ _ _ _ held same _ found opens
      subst same
      exact preserved.opener held found opens
    · intro _ _ _ _ _ _ _ _ _ _ held same _ found closes opens
      subst same
      exact preserved.closer held found closes opens
    · intro _ _ _ _ _ _ _ _ _ _ held same _ found token
      subst same
      exact preserved.token held found token
  refine (anywhere.reached opened before loc text held).mono ?_
  intro opened before text someplace
  obtain ⟨_, held⟩ := someplace
  exact held

end Headfirst.Fragment
