import Mathlib.Data.List.TakeWhile
import Mathlib.Data.Prod.Lex
import Headfirst.Proofs.Locating
import Headfirst.Tree.Edit

namespace Headfirst

/-! The text that a span covers.

A span names its text by line and column, and so what it covers can be read off the source alone:
the characters that stand from its start on and in front of its end.  For every tree of a fragment
that was read this is the text of the tree. -/

/-- A line and a column of a text.  Positions are ordered as the characters at them. -/
abbrev Position :=
  Int ×ₗ Int

namespace Text

/-- The characters of a text, each with its position, where the first one stands in the given line
and column. -/
def positions (line column : Int) : List Char → List (Position × Char)
  | [] => []
  | char :: rest =>
      (toLex (line, column), char) ::
        if char = '\n' then positions (line + 1) 1 rest else positions line (column + 1) rest

end Text

namespace Span

def start (span : Span) : Position :=
  toLex (span.line, span.column)

def stop (span : Span) : Position :=
  toLex (span.endLine, span.endColumn)

/-- The characters of a text from the start of a span on and in front of its end. -/
def slice (span : Span) (text : List Char) : List Char :=
  ((Text.positions 1 1 text).filter fun (position, _) =>
    span.start ≤ position ∧ position < span.stop).map Prod.snd

end Span

namespace Loc

def position (loc : Loc) : Position :=
  toLex (loc.line, loc.col)

def positions (loc : Loc) (text : List Char) : List (Position × Char) :=
  Text.positions loc.line loc.col text

variable {loc : Loc} {text : List Char} {position : Position} {char : Char}

theorem positions_cons (loc : Loc) (char : Char) (rest : List Char) :
    loc.positions (char :: rest) = (loc.position, char) :: (loc.next char).positions rest := by
  rw [positions, Text.positions, next]
  split <;> rfl

theorem positions_append (loc : Loc) (left right : List Char) :
    loc.positions (left ++ right) = loc.positions left ++ (loc.past left).positions right := by
  induction left generalizing loc with
  | nil => rfl
  | cons char left ih =>
      rw [List.cons_append, positions_cons, positions_cons, ih, List.cons_append]
      rfl

theorem map_snd_positions (loc : Loc) (text : List Char) :
    (loc.positions text).map Prod.snd = text := by
  induction text generalizing loc with
  | nil => rfl
  | cons char rest ih => rw [positions_cons, List.map_cons, ih]

theorem position_lt_next (loc : Loc) (char : Char) : loc.position < (loc.next char).position := by
  rw [next]
  split
  · exact Prod.Lex.toLex_lt_toLex.mpr (.inl (Int.lt_succ _))
  · exact Prod.Lex.toLex_lt_toLex.mpr (.inr ⟨rfl, Int.lt_succ _⟩)

theorem position_le_past (loc : Loc) (text : List Char) :
    loc.position ≤ (loc.past text).position := by
  induction text generalizing loc with
  | nil => exact le_rfl
  | cons char rest ih => exact (position_lt_next loc char).le.trans (ih _)

theorem behind_pos (file : String) (ahead : List Char) :
    0 < (behind file ahead).line ∧ 0 < (behind file ahead).col := by
  simp only [behind]
  omega

theorem behind_concat (file : String) (ahead : List Char) (char : Char) :
    behind file (ahead ++ [char]) = (behind file ahead).next char := by
  rw [← past_start, past_append, past_start]
  rfl

/-- The characters of a text stand from its start on and in front of its end. -/
theorem mem_positions (member : (position, char) ∈ loc.positions text) :
    loc.position ≤ position ∧ position < (loc.past text).position := by
  induction text generalizing loc with
  | nil => cases member
  | cons first rest ih =>
      have step := position_lt_next loc first
      rw [positions_cons, List.mem_cons] at member
      rcases member with same | later
      · cases same
        exact ⟨le_rfl, step.trans_le (position_le_past ..)⟩
      · exact ⟨step.le.trans (ih later).1, (ih later).2⟩

end Loc

namespace Span

open Loc

/-- From one place up to another one. -/
def between (start stop : Loc) : Span :=
  ⟨start.file, start.line, start.col, stop.line, stop.col⟩

/-- A span covers the text between the places at its ends. -/
theorem slice_between (file : String) (ahead own rest : List Char) :
    (between (.behind file ahead) (.behind file (ahead ++ own))).slice (ahead ++ own ++ rest) =
      own := by
  rw [← past_start, ← past_start, past_append]
  generalize here : (Loc.start file).past ahead = place
  have whole : Text.positions 1 1 (ahead ++ own ++ rest) =
      (Loc.start file).positions ahead ++ place.positions own ++
        (place.past own).positions rest := by
    rw [← here, ← past_append, ← positions_append, ← positions_append]
    rfl
  rw [slice, whole, List.filter_append, List.filter_append, List.filter_eq_nil_iff.mpr,
    List.filter_eq_self.mpr, List.filter_eq_nil_iff.mpr, List.nil_append, List.append_nil,
    map_snd_positions]
  · rintro ⟨position, char⟩ behind within
    rw [decide_eq_true_iff] at within
    exact within.2.not_ge (mem_positions behind).1
  · rintro ⟨position, char⟩ inside
    exact decide_eq_true (mem_positions inside)
  · rintro ⟨position, char⟩ front within
    rw [decide_eq_true_iff] at within
    have before := (mem_positions front).2
    rw [here] at before
    exact before.not_ge within.1

theorem make_eq (file : String) (line column : Int) {endLine endColumn : Int}
    (someLine : 0 < endLine) (someColumn : 0 < endColumn) :
    make file line column endLine endColumn = ⟨file, line, column, endLine, endColumn⟩ := by
  rw [make, if_neg (Int.ne_of_gt someLine), if_neg (Int.ne_of_gt someColumn)]

/-- The end of a text, which is computed from the text alone, is the place behind it. -/
theorem ofText_behind (file : String) (ahead : List Char) {text : String} (some : text ≠ "") :
    ofText (.behind file ahead) text =
      between (.behind file ahead) (.behind file (ahead ++ text.toList)) := by
  have covers : 0 < text.toList.length :=
    List.length_pos_iff.mpr (mt String.toList_eq_nil_iff.mp some)
  simp only [ofText, ← String.length_toList, between, behind, List.count_append,
    List.reverse_append]
  by_cases broken : '\n' ∈ text.toList
  · have breaks : 0 < text.toList.count '\n' := List.count_pos_iff.mpr broken
    have stops : (text.toList.reverse ++ ahead.reverse).takeWhile (· ≠ '\n') =
        text.toList.reverse.takeWhile (· ≠ '\n') := by
      rw [List.takeWhile_append, if_neg]
      intro all
      have whole := List.takeWhile_eq_self_iff.mp ((List.takeWhile_prefix _).eq_of_length all)
      simpa using whole _ (List.mem_reverse.mpr broken)
    rw [stops, if_neg (Nat.ne_of_gt breaks), make_eq _ _ _ (by omega) (by omega)]
    congr 1 <;> omega
  · have runs : (text.toList.reverse ++ ahead.reverse).takeWhile (· ≠ '\n') =
        text.toList.reverse ++ ahead.reverse.takeWhile (· ≠ '\n') := by
      refine List.takeWhile_append_of_pos fun char member => ?_
      rw [decide_eq_true_iff]
      rintro rfl
      exact broken (List.mem_reverse.mp member)
    rw [runs, if_pos (List.count_eq_zero.mpr broken), List.count_eq_zero.mpr broken,
      make_eq _ _ _ (by omega) (by omega), List.length_append, List.length_reverse]
    congr 1
    omega

end Span

namespace Tree

/-- The text of a tree, from its first character to its last one. -/
def ownText : Tree → List Char
  | leaf token => token.text.toList
  | group bracket children =>
      bracket.delimiter.opening.toList ++ layout (piecesAll children) ++
        bracket.closeLeading.toList ++ bracket.delimiter.closing.toList

/-- The trivia in front of a tree is all that it has besides its own text. -/
theorem layout_pieces (tree : Tree) :
    layout tree.pieces = tree.leading.toList ++ tree.ownText := by
  cases tree with
  | leaf token => simp [pieces, layout, Piece.layout, leading, ownText]
  | group bracket children =>
      simp [pieces, layout, Piece.layout, leading, ownText]

/-- A closing bracket is one character, and ends on the line on which it starts. -/
theorem exists_closing {delimiter : Delimiter} (some : delimiter.closing ≠ "") :
    ∃ char, delimiter.closing.toList = [char] ∧ char ≠ '\n' := by
  cases delimiter with
  | paren => exact ⟨')', rfl, by decide⟩
  | brace => exact ⟨'\x7d', rfl, by decide⟩
  | bracket => exact ⟨']', rfl, by decide⟩
  | invisible => exact absurd rfl some

section

variable {file : String} {ahead inside : List Char}

theorem span_leaf {token : Token} (here : token.loc = .behind file ahead) (some : token.text ≠ "") :
    (leaf token).span =
      .between (.behind file ahead) (.behind file (ahead ++ token.text.toList)) := by
  rw [span, here, if_neg (Int.ne_of_gt (Loc.behind_pos file ahead).1), Span.ofText_behind _ _ some]

theorem span_group {bracket : Bracket} (children : List Tree)
    (opens : bracket.loc = .behind file ahead) (closes : bracket.endLoc = .behind file inside)
    (some : bracket.delimiter.closing ≠ "") :
    (group bracket children).span = .between (.behind file ahead)
      (.behind file (inside ++ bracket.delimiter.closing.toList)) := by
  obtain ⟨char, closing, sameLine⟩ := exists_closing some
  obtain ⟨line, column⟩ := Loc.behind_pos file inside
  rw [span, opens, closes]
  simp only [if_neg (Int.ne_of_gt (Loc.behind_pos file ahead).1), if_pos line]
  rw [Span.make_eq _ _ _ line (by omega), closing, Loc.behind_concat, Loc.next, if_neg sameLine]
  rfl

end

/-- What is located below a tree is located in it. -/
theorem exists_located_children (tree : Tree) :
    ∃ former latter, tree.located = former ++ locatedAll tree.children ++ latter := by
  cases tree with
  | leaf token => exact ⟨_, [], by simp [children, locatedAll]; rfl⟩
  | group bracket children => exact ⟨[_], [_], rfl⟩

theorem exists_located_child {tree child : Tree} {index : Nat}
    (here : tree.children[index]? = some child) :
    ∃ former latter, locatedAll tree.children = former ++ child.located ++ latter := by
  obtain ⟨left, right, whole⟩ := List.append_of_mem (List.mem_of_getElem? here)
  exact ⟨locatedAll left, locatedAll right, by simp [whole, locatedAll_append, locatedAll]⟩

/-- What is located in a node is located in the tree, without anything in between. -/
theorem exists_located_node {path : List Nat} {tree node : Tree}
    (found : at? path tree = some node) :
    ∃ former latter, tree.located = former ++ node.located ++ latter := by
  induction path generalizing tree with
  | nil =>
      cases found
      exact ⟨[], [], by simp⟩
  | cons index path ih =>
      obtain ⟨child, here, below⟩ := Option.bind_eq_some_iff.mp found
      obtain ⟨former, latter, inside⟩ := ih below
      obtain ⟨left, right, among⟩ := exists_located_child here
      obtain ⟨front, back, around⟩ := exists_located_children tree
      exact ⟨front ++ left ++ former, latter ++ right ++ back, by simp [around, among, inside]⟩

theorem exists_located_below {path : List Nat} {tree node : Tree}
    (found : at? path tree = some node) (inner : path ≠ []) :
    ∃ former latter, locatedAll tree.children = former ++ node.located ++ latter := by
  obtain ⟨index, path, rfl⟩ := List.exists_cons_of_ne_nil inner
  obtain ⟨child, here, below⟩ := Option.bind_eq_some_iff.mp found
  obtain ⟨former, latter, inside⟩ := exists_located_node below
  obtain ⟨left, right, among⟩ := exists_located_child here
  exact ⟨left ++ former, latter ++ right, by simp [among, inside]⟩

end Tree

namespace Fragment

open Headfirst.Tree

variable {source file : String} {fragment : Fragment}

/-- The text of a tree stands in the source from the place of its first piece on. -/
theorem span_of_located {loc : Loc} {text : List Char} {seen : List (Piece × Loc)}
    {former latter : List (Piece × Loc)} {tree : Tree}
    (located : Located file source.toList seen loc text)
    (within : seen = former ++ tree.located ++ latter)
    (texts : ∀ piece ∈ tree.pieces, piece.text ≠ "") :
    ∃ ahead rest, source.toList = ahead ++ tree.ownText ++ rest ∧
      tree.span = .between (.behind file ahead) (.behind file (ahead ++ tree.ownText)) := by
  have whole := located.whole
  rw [within, List.map_append, List.map_append, map_fst_located, layout_append, layout_append,
    layout_pieces] at whole
  refine ⟨layout (former.map Prod.fst) ++ tree.leading.toList, layout (latter.map Prod.fst) ++ text,
    by simp [← whole], ?_⟩
  cases tree with
  | leaf token =>
      have place := located.places former ⟨token.leading, token.text⟩ token.loc latter
        (by simp [within, Tree.located])
      exact span_leaf place (texts ⟨token.leading, token.text⟩ (by simp [pieces]))
  | group bracket children =>
      have opening := located.places former ⟨bracket.leading, bracket.delimiter.opening⟩ bracket.loc
        (locatedAll children ++
          (⟨bracket.closeLeading, bracket.delimiter.closing⟩, bracket.endLoc) :: latter)
        (by simp [within, Tree.located])
      have closing := located.places
        (former ++ (⟨bracket.leading, bracket.delimiter.opening⟩, bracket.loc) ::
          locatedAll children)
        ⟨bracket.closeLeading, bracket.delimiter.closing⟩ bracket.endLoc latter
        (by simp [within, Tree.located])
      have inside : layout (former.map Prod.fst) ++ (group bracket children).leading.toList ++
          (bracket.delimiter.opening.toList ++ layout (piecesAll children) ++
            bracket.closeLeading.toList) =
          layout ((former ++ (⟨bracket.leading, bracket.delimiter.opening⟩, bracket.loc) ::
            locatedAll children).map Prod.fst) ++ bracket.closeLeading.toList := by
        simp [layout, Piece.layout, leading, ← map_fst_locatedAll]
      rw [ownText, ← List.append_assoc, inside]
      exact span_group children opening closing
        (texts ⟨bracket.closeLeading, bracket.delimiter.closing⟩ (by simp [pieces]))

/-- The span of a token or a group that was read covers its own text and nothing else. -/
theorem slice_span_of_read (done : read source file = .ok fragment) {path : List Nat} {tree : Tree}
    (found : at? path fragment.tree = some tree) (inner : path ≠ []) :
    tree.span.file = file ∧ tree.span.slice source.toList = tree.ownText := by
  obtain ⟨_, located⟩ := exists_located done
  obtain ⟨former, latter, within⟩ := exists_located_below found inner
  have pieces : piecesAll fragment.children =
      former.map Prod.fst ++ tree.pieces ++ latter.map Prod.fst := by
    rw [← map_fst_locatedAll, ← map_fst_located, ← List.map_append, ← List.map_append]
    exact congrArg _ within
  have texts : ∀ piece ∈ tree.pieces, piece.text ≠ "" := fun piece member =>
    texts_of_read done piece (by simp [pieces, member])
  obtain ⟨ahead, rest, whole, covers⟩ := span_of_located located within texts
  rw [whole, covers]
  exact ⟨rfl, Span.slice_between ..⟩

/-- A string of two lines, and the brackets around it. -/
theorem slice_span_of_read_lines :
    ∃ fragment group string, read "f(/* a */)\n[\"x\ny\" b] // c" "main.rs" = .ok fragment ∧
      at? [2] fragment.tree = some group ∧ at? [2, 0] fragment.tree = some string ∧
      string.span = ⟨"main.rs", 2, 2, 3, 3⟩ ∧
      group.span.slice "f(/* a */)\n[\"x\ny\" b] // c".toList = "[\"x\ny\" b]".toList ∧
      string.span.slice "f(/* a */)\n[\"x\ny\" b] // c".toList = "\"x\ny\"".toList := by
  have run : (read "f(/* a */)\n[\"x\ny\" b] // c" "main.rs").toOption.any fun fragment =>
      (at? [2] fragment.tree).any fun group => (at? [2, 0] fragment.tree).any fun string =>
        string.span == ⟨"main.rs", 2, 2, 3, 3⟩ && group.ownText == "[\"x\ny\" b]".toList &&
          string.ownText == "\"x\ny\"".toList := by
    decide +kernel
  obtain ⟨fragment, lexed, run⟩ := exists_ok_of_any run
  obtain ⟨group, here, run⟩ := (Option.any_eq_true _ _).mp run
  obtain ⟨string, inside, run⟩ := (Option.any_eq_true _ _).mp run
  simp only [Bool.and_eq_true, beq_iff_eq] at run
  obtain ⟨⟨ends, brackets⟩, quoted⟩ := run
  refine ⟨fragment, group, string, lexed, here, inside, ends, ?_, ?_⟩
  · rw [← brackets]
    exact (slice_span_of_read lexed here (by decide)).2
  · rw [← quoted]
    exact (slice_span_of_read lexed inside (by decide)).2

end Fragment

end Headfirst
