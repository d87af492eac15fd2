import Headfirst.Proofs.Reading
import Headfirst.Tree.Print

namespace Headfirst

/-! A fragment that was read has its source in it.  Printing gives the source back, with one
space more between any two wordy neighbours that nothing separates. -/

namespace Tree

def Piece.layout (piece : Piece) : List Char :=
  piece.leading.toList ++ piece.text.toList

/-- The trivia and the texts of pieces, with nothing put in between. -/
def layout (pieces : List Piece) : List Char :=
  pieces.flatMap Piece.layout

/-- Two neighbours between which printing puts a space. -/
def Piece.touches (first second : Piece) : Bool :=
  second.leading.isEmpty && first.text.toList.getLast?.any isWordy &&
    second.text.toList.head?.any isWordy

/-- How many neighbours touch. -/
def contacts : List Piece → Nat
  | first :: second :: pieces =>
      (if first.touches second then 1 else 0) + contacts (second :: pieces)
  | _ => 0

@[simp] theorem layout_append (left right : List Piece) :
    layout (left ++ right) = layout left ++ layout right :=
  List.flatMap_append

theorem piecesAll_append (left right : List Tree) :
    piecesAll (left ++ right) = piecesAll left ++ piecesAll right := by
  induction left with
  | nil => rfl
  | cons tree trees ih => simp [piecesAll, ih]

theorem mem_piecesAll {piece : Piece} {trees : List Tree} :
    piece ∈ piecesAll trees ↔ ∃ tree ∈ trees, piece ∈ tree.pieces := by
  induction trees with
  | nil => simp [piecesAll]
  | cons tree trees ih => simp [piecesAll, ih]

section

variable {first piece ending : Piece} {pieces : List Piece}

theorem written_eq (first piece : Piece) :
    written first.text.toList.getLast? piece =
      (if first.touches piece then [' '] else []) ++ piece.layout := by
  unfold written Piece.touches Piece.layout
  simp only
  split
  · rename_i clash
    have empty : piece.leading = "" := by
      simp only [Bool.and_eq_true, String.isEmpty_iff] at clash
      exact clash.1.1
    simp [empty]
  · rfl

/-- The character that the next piece stands behind is the last one of this piece. -/
theorem getLast?_written (last : Option Char) (text : piece.text ≠ "") :
    (written last piece).getLast?.or last = piece.text.toList.getLast? := by
  have some := List.getLast?_eq_some_getLast (mt String.toList_eq_nil_iff.mp text)
  rw [written, List.getLast?_append, some]
  rfl

theorem joined_cons (text : piece.text ≠ "") :
    joined first.text.toList.getLast? (piece :: pieces) =
      (if first.touches piece then [' '] else []) ++ piece.layout ++
        joined piece.text.toList.getLast? pieces := by
  rw [joined, getLast?_written _ text, written_eq]

theorem joined_ending (blank : ending.text = "") :
    joined first.text.toList.getLast? [ending] = ending.layout := by
  have apart : first.touches ending = false := by simp [Piece.touches, blank]
  simp [joined, written_eq, apart]

theorem contacts_ending (blank : ending.text = "") : contacts [first, ending] = 0 := by
  simp [contacts, Piece.touches, blank]

theorem length_joined (blank : ending.text = "") (texts : ∀ piece ∈ pieces, piece.text ≠ "") :
    (joined first.text.toList.getLast? (pieces ++ [ending])).length =
      (layout (pieces ++ [ending])).length + contacts (first :: (pieces ++ [ending])) := by
  induction pieces generalizing first with
  | nil => simp [joined_ending blank, contacts_ending blank, layout]
  | cons piece pieces ih =>
      have later := @ih piece fun other member => texts other (List.mem_cons_of_mem _ member)
      rw [List.cons_append, joined_cons (texts piece (List.mem_cons_self ..)), contacts]
      simp only [layout, List.flatMap_cons, List.length_append] at later ⊢
      rw [later]
      split <;> simp <;> omega

theorem joined_of_apart (blank : ending.text = "") (texts : ∀ piece ∈ pieces, piece.text ≠ "")
    (apart : contacts (first :: (pieces ++ [ending])) = 0) :
    joined first.text.toList.getLast? (pieces ++ [ending]) = layout (pieces ++ [ending]) := by
  induction pieces generalizing first with
  | nil => simp [joined_ending blank, layout]
  | cons piece pieces ih =>
      rw [List.cons_append, contacts] at apart
      obtain ⟨here, later⟩ := Nat.add_eq_zero_iff.mp apart
      have again := ih (fun other member => texts other (List.mem_cons_of_mem _ member)) later
      have noSpace : first.touches piece = false := by simpa using here
      rw [List.cons_append, joined_cons (texts piece (List.mem_cons_self ..)), again, noSpace]
      simp [layout]

end

end Tree

namespace Fragment

open Headfirst.Tree (layout piecesAll piecesAll_append Piece.layout contacts joined)

/-- The text that a scan has behind it. -/
def consumed : List Opened → List Tree → List Char
  | [], before => layout (piecesAll before.reverse)
  | innermost :: outer, before =>
      consumed outer innermost.before ++ innermost.leading.toList ++ [innermost.spot.char] ++
        layout (piecesAll before.reverse)

theorem consumed_cons (opened : List Opened) (tree : Tree) (before : List Tree) :
    consumed opened (tree :: before) = consumed opened before ++ layout tree.pieces := by
  cases opened <;> simp [consumed, piecesAll_append, piecesAll]

theorem preserved_source (source : List Char) :
    Preserved fun opened before text =>
      consumed opened before ++ text = source where
  opener {opened before _ text char rest _} whole found _ := by
    rw [← List.take_append_drop (Trivia.length text) text, found] at whole
    simpa [consumed, layout, piecesAll] using whole
  closer {innermost opened before _ text char rest delimiter} whole found closes opens := by
    rw [← List.take_append_drop (Trivia.length text) text, found] at whole
    simpa [consumed, consumed_cons, Tree.pieces, layout, Piece.layout, opening_of_opener opens,
      closing_of_closer closes] using whole
  token {opened before _ text char rest _ further} whole found _ := by
    rw [← List.take_append_drop (Trivia.length text) text, found,
      ← List.take_append_drop further rest] at whole
    simpa [consumed_cons, Tree.pieces, layout, Piece.layout] using whole

/-- The tree of a fragment that was read has the whole source in it. -/
theorem layout_of_read {source file : String} {fragment : Fragment}
    (done : read source file = .ok fragment) :
    layout fragment.tree.pieces = source.toList := by
  have whole := ((preserved_source source.toList).of_read rfl done).1
  rw [Fragment.tree, (scan_of_read done).2]
  simpa [consumed, Tree.pieces, layout, Piece.layout, Delimiter.opening, Delimiter.closing]
    using whole

/-- Tokens and brackets that were read have characters. -/
def Written (tree : Tree) : Prop :=
  ∀ piece ∈ tree.pieces, piece.text ≠ ""

theorem preserved_written :
    Preserved fun opened before _ =>
      (∀ bracket ∈ opened, ∀ tree ∈ bracket.before, Written tree) ∧
        ∀ tree ∈ before, Written tree where
  opener {opened before _ text char rest _} written _ _ := by
    refine ⟨fun bracket member => ?_, by simp⟩
    rcases List.mem_cons.mp member with rfl | member
    · exact written.2
    · exact written.1 bracket member
  closer {innermost opened before _ text char rest delimiter} written _ closes opens := by
    have siblings := written.1 innermost (List.mem_cons_self ..)
    refine ⟨fun bracket member => written.1 bracket (List.mem_cons_of_mem _ member), ?_⟩
    refine List.forall_mem_cons.mpr ⟨?_, siblings⟩
    have opening : delimiter.opening ≠ "" := fun empty => by
      simpa [empty] using opening_of_opener opens
    have closing : delimiter.closing ≠ "" := fun empty => by
      simpa [empty] using closing_of_closer closes
    intro piece member
    rw [Tree.pieces, List.cons_append, List.mem_cons, List.mem_append] at member
    rcases member with rfl | inside | last
    · exact opening
    · obtain ⟨tree, within, member⟩ := Tree.mem_piecesAll.mp inside
      exact written.2 tree (List.mem_reverse.mp within) piece member
    · cases List.mem_singleton.mp last
      exact closing
  token {opened before _ text char rest _ further} written _ _ := by
    refine ⟨written.1, List.forall_mem_cons.mpr ⟨?_, written.2⟩⟩
    intro piece member
    cases List.mem_singleton.mp member
    simp

theorem texts_of_read {source file : String} {fragment : Fragment}
    (done : read source file = .ok fragment) :
    ∀ piece ∈ piecesAll fragment.children, piece.text ≠ "" := by
  have written := (preserved_written.of_read ⟨by simp, by simp⟩ done).1.2
  intro piece member
  obtain ⟨tree, within, inside⟩ := Tree.mem_piecesAll.mp member
  exact written tree (List.mem_reverse.mpr within) piece inside

section

variable {fragment : Fragment} (invisible : fragment.bracket.delimiter = .invisible)

include invisible

/-- The children of a fragment stand between two marks without text. -/
theorem pieces_tree :
    fragment.tree.pieces = ⟨fragment.bracket.leading, ""⟩ ::
      (piecesAll fragment.children ++ [⟨fragment.bracket.closeLeading, ""⟩]) := by
  rw [Fragment.tree, Tree.pieces, invisible]
  rfl

theorem toList_render :
    fragment.tree.render.toList =
      joined none (piecesAll fragment.children ++ [⟨fragment.bracket.closeLeading, ""⟩]) := by
  simp [Fragment.tree, Tree.render, Tree.pieces, invisible, joined, Tree.written,
    Delimiter.opening, Delimiter.closing]

end

/-- Printing what was read gives the source with one more space for every two wordy
neighbours that touch, and gives it back as it was where there are none. -/
theorem render_of_read {source file : String} {fragment : Fragment}
    (done : read source file = .ok fragment) :
    fragment.tree.render.length = source.length + contacts fragment.tree.pieces ∧
      (fragment.tree.render = source ↔ contacts fragment.tree.pieces = 0) := by
  have texts := texts_of_read done
  have whole := layout_of_read done
  have root := (scan_of_read done).2
  have invisible : fragment.bracket.delimiter = .invisible := by rw [root]
  have leading : fragment.bracket.leading = "" := by rw [root]
  have rendered := toList_render invisible
  rw [pieces_tree invisible, leading] at whole ⊢
  have spaced := @Tree.length_joined ⟨"", ""⟩ ⟨fragment.bracket.closeLeading, ""⟩ _ rfl texts
  have length : fragment.tree.render.length = source.length + contacts
      (⟨"", ""⟩ :: (piecesAll fragment.children ++ [⟨fragment.bracket.closeLeading, ""⟩])) := by
    rw [← String.length_toList, ← String.length_toList, rendered, ← whole]
    exact spaced
  refine ⟨length, fun same => ?_, fun apart => ?_⟩
  · rw [same] at length
    omega
  · refine String.toList_inj.mp ?_
    rw [rendered, ← whole]
    exact Tree.joined_of_apart rfl texts apart

/-- A raw lifetime, a string in brackets and comments. -/
theorem render_of_read_call :
    ∃ fragment, read "f ('r#a, [\"b\"]) /* c */ // d" "main.rs" = .ok fragment ∧
      fragment.tree.render = "f ('r#a, [\"b\"]) /* c */ // d" := by
  have apart : (read "f ('r#a, [\"b\"]) /* c */ // d" "main.rs").toOption.any
      (contacts ·.tree.pieces == 0) := by
    decide +kernel
  cases done : read "f ('r#a, [\"b\"]) /* c */ // d" "main.rs" with
  | error failure => simp [done, Except.toOption] at apart
  | ok fragment =>
      rw [done] at apart
      exact ⟨fragment, rfl, (render_of_read done).2.mpr (eq_of_beq apart)⟩

/-- A number right before a string is read as two tokens, which are printed apart. -/
theorem render_of_read_touching :
    ∃ fragment, read "1\"a\"" "main.rs" = .ok fragment ∧
      fragment.tree.render = "1 \"a\"" ∧ fragment.tree.render ≠ "1\"a\"" := by
  have spaced : (read "1\"a\"" "main.rs").toOption.any
      (·.tree.render == "1 \"a\"") := by
    decide +kernel
  cases done : read "1\"a\"" "main.rs" with
  | error failure => simp [done, Except.toOption] at spaced
  | ok fragment =>
      rw [done] at spaced
      have printed : fragment.tree.render = "1 \"a\"" := eq_of_beq spaced
      exact ⟨fragment, rfl, printed, by rw [printed]; decide⟩

end Fragment

end Headfirst
