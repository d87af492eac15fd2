import Headfirst.Fragment.Source
import Headfirst.Proofs.Fused
import Headfirst.Proofs.Layout
import Headfirst.Proofs.Legible

namespace Headfirst

open Headfirst.Tree
open Lexeme (Reads fuses)
open Pattern (StopsAt stopsAt_cons)
open Trivia (Complete)

/-! Printed trees read again.

The scan of a printed text goes through the trees as they were printed, as long as no token
fuses with the text behind it: a token is then read where it was written, and all trivia is
what stands between two tokens. -/

def Token.plain (token : Token) : Token :=
  { kind := token.kind, text := token.text }

namespace Tree

mutual

/-- A tree without trivia and places: the kinds and texts of its tokens, and its groups. -/
def plain : Tree → Tree
  | leaf token => leaf token.plain
  | group bracket children => group { delimiter := bracket.delimiter } (plainAll children)

def plainAll : List Tree → List Tree
  | [] => []
  | tree :: trees => tree.plain :: plainAll trees

end

variable {tree : Tree} {trees left right : List Tree}

theorem plainAll_append (left right : List Tree) :
    plainAll (left ++ right) = plainAll left ++ plainAll right := by
  induction left with
  | nil => rfl
  | cons tree trees ih => simp [plainAll, ih]

theorem plainAll_prepend (leading : String) (trees : List Tree) :
    plainAll (prepend leading trees) = plainAll trees := by
  cases trees with
  | nil => rfl
  | cons tree trees => cases tree <;> rfl

/-- Somewhere a token fuses with what is printed behind it. -/
def collides (last : Option Char) : List Piece → Bool
  | [] => false
  | piece :: pieces =>
      let last := (written last piece).getLast?.or last
      fuses piece.text.toList (joined last pieces) || collides last pieces

/-- The character at which printing arrives. -/
def lastOf (last : Option Char) : List Piece → Option Char
  | [] => last
  | piece :: pieces => lastOf ((written last piece).getLast?.or last) pieces

theorem lastOf_append (last : Option Char) (front behind : List Piece) :
    lastOf last (front ++ behind) = lastOf (lastOf last front) behind := by
  induction front generalizing last with
  | nil => rfl
  | cons piece pieces ih => exact ih _

/-! What may follow a token. -/

theorem not_isWordy_of_isBlank {char : Char} (blank : Text.isBlank char) : ¬isWordy char := by
  have code : char.toNat ∈ [0x09, 0x0A, 0x0B, 0x0C, 0x0D, 0x20, 0x85, 0xA0, 0x1680, 0x2000, 0x2001,
      0x2002, 0x2003, 0x2004, 0x2005, 0x2006, 0x2007, 0x2008, 0x2009, 0x200A, 0x2028, 0x2029,
      0x202F, 0x205F, 0x3000] := by
    simp only [Text.isBlank, Bool.or_eq_true, Bool.and_eq_true, decide_eq_true_eq,
      beq_iff_eq] at blank
    simp only [List.mem_cons, List.not_mem_nil, or_false]
    omega
  rw [← Char.ofNat_toNat char]
  generalize char.toNat = number at code
  revert number
  decide +kernel

/-- Trivia never goes on with a word. -/
theorem stopsAt_of_drop {text : List Char} (whole : text.drop (Trivia.length text) = []) :
    StopsAt isWordy text := by
  cases text with
  | nil => simp
  | cons char rest =>
      rw [stopsAt_cons]
      cases found : Trivia.item (char :: rest) with
      | none => simp [Trivia.length_noItem found] at whole
      | some taken =>
          obtain ⟨_, _, ⟨⟩, blank | rfl | rfl⟩ := Trivia.starts_item _ _ found
          · exact not_isWordy_of_isBlank blank
          all_goals decide

theorem stopsAt_of_complete {gap : List Char} (complete : Complete gap) : StopsAt isWordy gap := by
  have whole := complete []
  rw [List.append_nil, Trivia.length_nil] at whole
  exact stopsAt_of_drop (by rw [whole, Nat.add_zero, List.drop_length])

/-- Printing goes on behind a word with something that is not wordy. -/
theorem stopsAt_joined {char : Char} (wordy : isWordy char) {pieces : List Piece}
    (spaced : ∀ piece ∈ pieces, StopsAt isWordy piece.leading.toList) :
    StopsAt isWordy (joined (some char) pieces) := by
  induction pieces with
  | nil => simp [joined]
  | cons piece pieces ih =>
      have later := ih fun other member => spaced other (List.mem_cons_of_mem _ member)
      have here := spaced piece (List.mem_cons_self ..)
      rw [joined, written]
      cases leading : piece.leading.toList with
      | cons first more =>
          have notEmpty : piece.leading.isEmpty = false := by
            refine Bool.eq_false_iff.mpr fun empty => ?_
            simp [String.isEmpty_iff.mp empty] at leading
          rw [leading, stopsAt_cons] at here
          simpa [notEmpty] using here
      | nil =>
          have empty : piece.leading = "" := String.toList_eq_nil_iff.mp leading
          cases text : piece.text.toList with
          | nil => simpa [empty] using later
          | cons first more =>
              cases clash : isWordy first with
              | true => simp [empty, wordy, clash]; decide
              | false => simp [empty, clash]

mutual

theorem stopsAt_pieces : ∀ tree : Tree, tree.Legible →
    ∀ piece ∈ tree.pieces, StopsAt isWordy piece.leading.toList
  | leaf token, legible, piece, member => by
      cases List.mem_singleton.mp member
      exact stopsAt_of_complete legible.2.2
  | group bracket children, legible, piece, member => by
      rw [pieces, List.cons_append, List.mem_cons, List.mem_append] at member
      rcases member with rfl | inside | last
      · exact stopsAt_of_complete legible.1
      · exact stopsAt_piecesAll children legible.2.2 piece inside
      · cases List.mem_singleton.mp last
        exact stopsAt_of_complete legible.2.1

theorem stopsAt_piecesAll : ∀ trees : List Tree, LegibleAll trees →
    ∀ piece ∈ piecesAll trees, StopsAt isWordy piece.leading.toList
  | [], _, piece, member => by cases member
  | tree :: trees, legible, piece, member => by
      rcases List.mem_append.mp member with here | later
      · exact stopsAt_pieces tree legible.1 piece here
      · exact stopsAt_piecesAll trees legible.2 piece later

end

/-- Pieces that can be printed behind the character `last` and read again. -/
structure Ahead (last : Option Char) (pieces : List Piece) : Prop where
  spaced : ∀ piece ∈ pieces, StopsAt isWordy piece.leading.toList
  apart : collides last pieces = false

theorem Ahead.tail {last : Option Char} {piece : Piece} {pieces : List Piece}
    (ahead : Ahead last (piece :: pieces)) :
    Ahead ((written last piece).getLast?.or last) pieces where
  spaced := fun other member => ahead.spaced other (List.mem_cons_of_mem _ member)
  apart := (Bool.or_eq_false_iff.mp ahead.apart).2

theorem Ahead.behind {last : Option Char} {front behind : List Piece}
    (ahead : Ahead last (front ++ behind)) : Ahead (lastOf last front) behind := by
  induction front generalizing last with
  | nil => exact ahead
  | cons piece pieces ih => exact ih ahead.tail

/-- A token is read where it was printed. -/
theorem Ahead.reads {last : Option Char} {token : Token} {pieces : List Piece}
    (ahead : Ahead last (⟨token.leading, token.text⟩ :: pieces)) (legible : token.Legible) :
    let behind := joined token.text.toList.getLast? pieces
    Reads (token.text.toList ++ behind) token.kind token.text.toList.length ∧
      Trivia.length (token.text.toList ++ behind) = 0 := by
  intro behind
  obtain ⟨notEmpty, ⟨rest, reads⟩, -⟩ := legible
  have characters := mt String.toList_eq_nil_iff.mp notEmpty
  have apart : ¬fuses token.text.toList behind := by
    have first := (Bool.or_eq_false_iff.mp ahead.apart).1
    have arrived : (written last ⟨token.leading, token.text⟩).getLast?.or last = _ :=
      getLast?_written last notEmpty
    rw [arrived] at first
    simpa using first
  obtain ⟨again, noItem⟩ := (Lexeme.reads_iff_not_fuses reads characters fun char found wordy => by
    have printed : behind = joined (some char) pieces := by rw [← Option.mem_def.mp found]
    rw [printed]
    exact stopsAt_joined wordy ahead.tail.spaced).mpr apart
  refine ⟨again, ?_⟩
  cases text : token.text.toList with
  | nil => exact absurd text characters
  | cons char more =>
      rw [text] at noItem
      exact Trivia.length_noItem noItem

end Tree

namespace Fragment

open Grammar (maxNesting)

variable {opened : List Opened} {before : List Tree} {loc : Loc} {gap : List Char}

theorem scan_gap (complete : Complete gap) {text : List Char} (noTrivia : Trivia.length text = 0) :
    scan opened before loc (gap ++ text) =
      scanTree opened before (String.ofList gap) (loc.past gap) text := by
  have length : Trivia.length (gap ++ text) = gap.length := by rw [complete, noTrivia]; rfl
  rw [scan_eq, length, List.take_left, List.drop_left]

/-- The scan of a printed piece, behind trivia that was left over. -/
theorem scan_written (complete : Complete gap) (last : Option Char) {piece : Piece}
    (leading : Complete piece.leading.toList) {behind : List Char}
    (noTrivia : Trivia.length (piece.text.toList ++ behind) = 0) :
    ∃ trivia place, scan opened before loc (gap ++ (written last piece ++ behind)) =
      scanTree opened before trivia place (piece.text.toList ++ behind) := by
  rw [written]
  split
  · rw [List.append_assoc, ← List.append_assoc]
    exact ⟨_, _, scan_gap (complete.append Trivia.complete_space) noTrivia⟩
  · rw [List.append_assoc, ← List.append_assoc]
    exact ⟨_, _, scan_gap (complete.append leading) noTrivia⟩

theorem scanTree_reads {front behind : List Char} {kind : TokenKind} {leading : String}
    (notEmpty : front ≠ []) (reads : Reads (front ++ behind) kind front.length) :
    scanTree opened before leading loc (front ++ behind) =
      scan opened (.leaf ⟨kind, String.ofList front, loc, leading⟩ :: before) (loc.past front)
        behind := by
  cases front with
  | nil => contradiction
  | cons char more =>
      have token := Lexeme.reads_iff.mp reads
      rw [List.cons_append, List.length_cons] at token
      rw [List.cons_append, scanTree_token token, List.take_left, List.drop_left]

/-- Printed pieces are read as trees of the same shape, and leave trivia behind. -/
def Rereads (pieces : List Piece) (trees : List Tree) : Prop :=
  ∀ (last : Option Char) (more : List Piece), Ahead last (pieces ++ more) →
    ∀ (opened : List Opened) (before : List Tree) (loc : Loc) (gap : List Char), Complete gap →
      opened.length + depthAll trees ≤ maxNesting →
      ∃ again loc' gap', plainAll again = plainAll trees ∧ Complete gap' ∧
        scan opened before loc (gap ++ joined last (pieces ++ more)) =
          scan opened (again.reverse ++ before) loc' (gap' ++ joined (lastOf last pieces) more)

theorem rereads_nil : Rereads [] [] := by
  intro last more ahead opened before loc gap complete _
  exact ⟨[], loc, gap, rfl, complete, rfl⟩

theorem Rereads.append {left right : List Piece} {first second : List Tree}
    (reads : Rereads left first) (goesOn : Rereads right second) :
    Rereads (left ++ right) (first ++ second) := by
  intro last more ahead opened before loc gap complete shallow
  rw [depthAll_append] at shallow
  rw [List.append_assoc] at ahead ⊢
  obtain ⟨again, loc', gap', same, complete', here⟩ :=
    reads _ _ ahead opened before loc gap complete (by omega)
  obtain ⟨again', loc'', gap'', same', complete'', later⟩ :=
    goesOn _ _ ahead.behind opened (again.reverse ++ before) loc' gap' complete' (by omega)
  refine ⟨again ++ again', loc'', gap'', ?_, complete'', ?_⟩
  · rw [plainAll_append, plainAll_append, same, same']
  · rw [here, later, lastOf_append, List.reverse_append, List.append_assoc]

theorem Rereads.prepend {pieces : List Piece} {trees : List Tree} (reads : Rereads pieces trees)
    (leading : String) : Rereads pieces (Tree.prepend leading trees) := by
  intro last more ahead opened before loc gap complete shallow
  rw [depthAll_eq_of_bare (bare_prepend leading trees)] at shallow
  rw [plainAll_prepend]
  exact reads _ _ ahead opened before loc gap complete shallow

theorem rereads_leaf {token : Token} (legible : token.Legible) :
    Rereads [⟨token.leading, token.text⟩] [.leaf token] := by
  intro last more ahead opened before loc gap complete _
  rw [List.singleton_append] at ahead ⊢
  obtain ⟨reads, noTrivia⟩ := ahead.reads legible
  have notEmpty := mt String.toList_eq_nil_iff.mp legible.1
  have arrived : (written last ⟨token.leading, token.text⟩).getLast?.or last =
      token.text.toList.getLast? :=
    getLast?_written last legible.1
  obtain ⟨trivia, place, start⟩ :=
    @scan_written opened before loc gap complete last ⟨token.leading, token.text⟩ legible.2.2 _
      noTrivia
  refine ⟨[.leaf { token with loc := place, leading := trivia }], place.past token.text.toList, [],
    rfl, Trivia.complete_nil, ?_⟩
  simp only [joined, arrived, lastOf]
  rw [start, scanTree_reads notEmpty reads]
  simp

theorem exists_brackets {delimiter : Delimiter} (visible : delimiter ≠ .invisible) :
    ∃ opener closer, delimiter.opening.toList = [opener] ∧
      openerDelimiter? opener = some delimiter ∧ delimiter.closing.toList = [closer] ∧
      closerDelimiter? closer = some delimiter := by
  cases delimiter with
  | paren => exact ⟨_, _, rfl, rfl, rfl, rfl⟩
  | brace => exact ⟨_, _, rfl, rfl, rfl, rfl⟩
  | bracket => exact ⟨_, _, rfl, rfl, rfl, rfl⟩
  | invisible => contradiction

section

variable {bracket : Bracket} {children trees : List Tree}
  (opening : Complete bracket.leading.toList) (closing : Complete bracket.closeLeading.toList)
  (inside : Rereads (piecesAll children) trees)

include opening closing inside

theorem rereads_group (visible : bracket.delimiter ≠ .invisible) :
    Rereads (Tree.group bracket children).pieces [.group bracket trees] := by
  intro last more ahead opened before loc gap complete shallow
  obtain ⟨opener, closer, openerText, opens, closerText, closes⟩ := exists_brackets visible
  have deeper : opened.length + 1 + depthAll trees ≤ maxNesting := by
    simp only [depthAll, depth] at shallow
    omega
  rw [Tree.pieces, List.append_assoc, List.cons_append] at ahead ⊢
  obtain ⟨trivia, place, start⟩ :=
    @scan_written opened before loc gap complete last ⟨bracket.leading, bracket.delimiter.opening⟩
      opening (joined _ _) (by rw [openerText]; exact Trivia.length_opener opens)
  obtain ⟨again, loc', gap', same, complete', middle⟩ :=
    inside _ _ ahead.tail (⟨⟨place, opener⟩, trivia, before⟩ :: opened) [] (place.next opener) []
      Trivia.complete_nil deeper
  obtain ⟨trivia', place', stop⟩ :=
    @scan_written (⟨⟨place, opener⟩, trivia, before⟩ :: opened) (again.reverse ++ []) loc' gap'
      complete' (lastOf _ (piecesAll children)) ⟨bracket.closeLeading, bracket.delimiter.closing⟩
      closing (joined _ more) (by rw [closerText]; exact Trivia.length_closer closes)
  refine ⟨[.group ⟨bracket.delimiter, place, place', trivia, trivia'⟩ again], place'.next closer,
    [], ?_, Trivia.complete_nil, ?_⟩
  · simp only [plainAll, plain, same]
  · rw [joined, start, openerText, List.singleton_append, scanTree_opener opens,
      if_pos (by omega), ← List.nil_append (joined _ _), middle, List.singleton_append, joined,
      stop, closerText, List.singleton_append, scanTree_closer closes, if_pos opens]
    simp [lastOf, lastOf_append]

/-- The trivia of a group without brackets is left in front of what follows. -/
theorem rereads_invisible (invisible : bracket.delimiter = .invisible) :
    Rereads (Tree.group bracket children).pieces trees := by
  intro last more ahead opened before loc gap complete shallow
  rw [Tree.pieces, invisible, List.append_assoc, List.cons_append] at ahead ⊢
  have written_blank (last : Option Char) (leading : String) :
      written last ⟨leading, ""⟩ = leading.toList := by
    simp [written]
  obtain ⟨again, loc', gap', same, complete', middle⟩ :=
    inside _ _ ahead.tail opened before loc (gap ++ bracket.leading.toList)
      (complete.append opening) shallow
  refine ⟨again, loc', gap' ++ bracket.closeLeading.toList, same, complete'.append closing, ?_⟩
  simp only [Delimiter.opening, Delimiter.closing, joined, lastOf, lastOf_append, written_blank,
    List.cons_append, List.nil_append, List.append_assoc] at middle ⊢
  exact middle

end

mutual

theorem rereads_tree : ∀ tree : Tree, tree.Legible → Rereads tree.pieces tree.flatten
  | .leaf _, legible => rereads_leaf legible
  | .group bracket children, legible => by
      obtain ⟨opening, closing, inside⟩ := legible
      have reads := rereads_trees children inside
      rw [flatten]
      split
      · rename_i invisible
        exact (rereads_invisible opening closing reads invisible).prepend _
      · rename_i visible
        exact rereads_group opening closing reads visible

theorem rereads_trees : ∀ trees : List Tree, LegibleAll trees →
    Rereads (piecesAll trees) (flattenAll trees)
  | [], _ => rereads_nil
  | tree :: trees, legible =>
      (rereads_tree tree legible.1).append (rereads_trees trees legible.2)

end

theorem exists_of_frontSource {settings : Settings} {source file output : String}
    (done : frontSource settings source file = .ok output) :
    ∃ fragment result, read source file = .ok fragment ∧
      (fragment.front settings).result = .ok result ∧ output = result.tree.render := by
  unfold frontSource at done
  split at done
  · cases done
  · rename_i fragment found
    split at done
    · cases done
    · rename_i result ran
      cases done
      exact ⟨fragment, result, found, ran, rfl⟩

/-- A printed fragment is read again as the trees it was printed from. -/
theorem read_render {fragment : Fragment} (invisible : fragment.bracket.delimiter = .invisible)
    (leading : fragment.bracket.leading = "")
    (ended : fragment.bracket.closeLeading.toList.drop
      (Trivia.length fragment.bracket.closeLeading.toList) = [])
    (legible : LegibleAll fragment.children)
    (shallow : depthAll (flattenAll fragment.children) ≤ maxNesting)
    (apart : collides none fragment.tree.pieces = false) (file : String) :
    ∃ again, read fragment.tree.render file = .ok again ∧
      plainAll again.children = plainAll (flattenAll fragment.children) := by
  have ahead : Ahead none
      (piecesAll fragment.children ++ [⟨fragment.bracket.closeLeading, ""⟩]) := by
    refine ⟨fun piece member => ?_, ?_⟩
    · rcases List.mem_append.mp member with inside | last
      · exact stopsAt_piecesAll fragment.children legible piece inside
      · cases List.mem_singleton.mp last
        exact stopsAt_of_drop ended
    · rw [pieces_tree invisible, leading, collides] at apart
      exact (Bool.or_eq_false_iff.mp apart).2
  obtain ⟨again, loc, gap, same, complete, arrives⟩ :=
    rereads_trees fragment.children legible _ _ ahead [] [] (.start file) [] Trivia.complete_nil
      (by simpa using shallow)
  have printed : joined (lastOf none (piecesAll fragment.children))
      [⟨fragment.bracket.closeLeading, ""⟩] = fragment.bracket.closeLeading.toList := by
    simp [joined, written]
  have nothing : (gap ++ fragment.bracket.closeLeading.toList).drop
      (Trivia.length (gap ++ fragment.bracket.closeLeading.toList)) = [] := by
    rw [complete, ← List.drop_drop, List.drop_left, ended]
  rw [printed, scan_eq _ _ loc, nothing, List.append_nil, scanTree_complete, List.reverse_reverse,
    List.nil_append, ← toList_render invisible] at arrives
  exact ⟨_, read_of_scan arrives, same⟩

/-- The text of a result is read again as the trees of the result without the groups that
have no brackets, up to trivia and places, where no token fuses with what stands behind it. -/
theorem reads_frontSource {settings : Settings} {source file output : String}
    (done : frontSource settings source file = .ok output) :
    ∃ fragment result, read source file = .ok fragment ∧
      (fragment.front settings).result = .ok result ∧ output = result.tree.render ∧
      (depthAll (flattenAll result.children) ≤ maxNesting →
        collides none result.tree.pieces = false → ∀ name, ∃ again,
          read output name = .ok again ∧
            plainAll again.children = plainAll (flattenAll result.children)) := by
  obtain ⟨fragment, result, found, ran, rfl⟩ := exists_of_frontSource done
  refine ⟨fragment, result, found, ran, rfl, fun shallow apart name => ?_⟩
  have legible := legibleAll_of_front ran (legibleAll_of_read found)
  have root := (scan_of_read found).2
  have ended := (preserved_legible.of_read ⟨by simp, trivial⟩ found).2
  obtain ⟨_, _, _, final, _, _, succeeded⟩ := front_course settings fragment
  obtain ⟨-, rfl, -⟩ := succeeded result ran
  exact @read_render { fragment with children := settle settings final } (by rw [root])
    (by rw [root]) ended legible shallow apart name

theorem eq_ok_of_toOption {ε α : Type} {outcome : Except ε α} {value : α}
    (done : outcome.toOption = some value) : outcome = .ok value := by
  cases outcome with
  | error _ => cases done
  | ok _ => cases done; rfl

/-- A number in a compound operand, in front of a block and a comment. -/
theorem reads_frontSource_compound :
    ∃ result again,
      frontSource {} "a + 1.5::(match) \x7b _ => 'b' \x7d /* c */" "main.rs" =
        .ok "match (a + 1.5) \x7b _ => 'b' \x7d /* c */" ∧
      read "match (a + 1.5) \x7b _ => 'b' \x7d /* c */" "main.rs" = .ok again ∧
      plainAll again.children = plainAll (flattenAll (Fragment.children result)) := by
  have printed := @eq_ok_of_toOption _ _
    (frontSource {} "a + 1.5::(match) \x7b _ => 'b' \x7d /* c */" "main.rs")
    "match (a + 1.5) \x7b _ => 'b' \x7d /* c */" (by decide +kernel)
  obtain ⟨fragment, result, found, ran, output, reads⟩ := reads_frontSource printed
  have apart : ((read "a + 1.5::(match) \x7b _ => 'b' \x7d /* c */" "main.rs").toOption.bind
      fun fragment => (fragment.front {}).result.toOption).any fun result =>
        depthAll (flattenAll result.children) ≤ maxNesting &&
          !collides none result.tree.pieces := by
    decide +kernel
  simp only [found, ran, Except.toOption, Option.bind_some, Option.any_some, Bool.and_eq_true,
    decide_eq_true_eq, Bool.not_eq_true'] at apart
  obtain ⟨again, read, same⟩ := reads apart.1 apart.2 "main.rs"
  exact ⟨result, again, printed, read, same⟩

/-- A number moved in front of a point and digits is read as one number with them. -/
theorem reads_frontSource_fused :
    ∃ fragment result again, read "1::(&).5" "main.rs" = .ok fragment ∧
      (fragment.front {}).result = .ok result ∧ result.tree.render = "& 1.5" ∧
      result.tree.compact = "& 1 . 5" ∧ read "& 1.5" "main.rs" = .ok again ∧
      again.tree.compact = "& 1.5" ∧
      plainAll again.children ≠ plainAll (flattenAll result.children) := by
  have printed := @eq_ok_of_toOption _ _ (frontSource {} "1::(&).5" "main.rs") "& 1.5"
    (by decide +kernel)
  obtain ⟨fragment, result, found, ran, output⟩ := exists_of_frontSource printed
  have moved : ((read "1::(&).5" "main.rs").toOption.bind
      fun fragment => (fragment.front {}).result.toOption).any fun result =>
        result.tree.compact == "& 1 . 5" &&
          (plainAll (flattenAll result.children)).length == 4 := by
    decide +kernel
  have fused : (read "& 1.5" "main.rs").toOption.any fun again =>
      again.tree.compact == "& 1.5" && (plainAll again.children).length == 2 := by
    decide +kernel
  simp only [found, ran, Except.toOption, Option.bind_some, Option.any_some, Bool.and_eq_true,
    beq_iff_eq] at moved
  cases again : read "& 1.5" "main.rs" with
  | error failure => simp [again, Except.toOption] at fused
  | ok again' =>
      simp only [again, Except.toOption, Option.any_some, Bool.and_eq_true, beq_iff_eq] at fused
      refine ⟨fragment, result, again', found, ran, output.symm, moved.1, rfl, fused.1, ?_⟩
      intro same
      have lengths := congrArg List.length same
      rw [moved.2, fused.2] at lengths
      cases lengths

end Fragment

end Headfirst
