import Mathlib.Data.List.Induction
import Headfirst.Proofs.Gaps
import Headfirst.Proofs.Layout
import Headfirst.Proofs.Places

namespace Headfirst

/-! What a fragment that was read knows of its source: all of its text, and for each token and
each bracket the place where it stands. -/

namespace Trivia

open Pattern

/-- A blank or a comment in front of `rest`.  A line comment ends in front of the line feed, or
with the text, and a block comment with the first mark that can end it. -/
inductive Item : List Char → (rest : List Char) → Prop where
  | blank {char : Char} {rest : List Char} : Text.isBlank char → Item [char] rest
  | line {comment rest : List Char} :
      '\n' ∉ comment → (∀ char ∈ rest.head?, char = '\n') → Item ('/' :: '/' :: comment) rest
  | block {comment rest : List Char} :
      ¬['*', '/'] <:+: comment → Item ('/' :: '*' :: comment ++ ['*', '/']) rest

/-- White space and comments, and nothing else. -/
inductive Gap : List Char → Prop where
  | nothing : Gap []
  | item {front rest : List Char} : Item front rest → Gap rest → Gap (front ++ rest)

/-- The end of a block comment is the first one. -/
theorem blockCommentEnd_eq_some {text : List Char} {taken : Nat}
    (ends : blockCommentEnd text = some taken) :
    ∃ comment rest, text = comment ++ '*' :: '/' :: rest ∧ taken = comment.length + 2 ∧
      ¬['*', '/'] <:+: comment := by
  fun_induction blockCommentEnd text generalizing taken with
  | case1 => cases ends
  | case2 rest =>
      cases ends
      exact ⟨[], rest, rfl, rfl, by simp⟩
  | case3 char rest notEnd ih =>
      obtain ⟨further, later, rfl⟩ := Option.map_eq_some_iff.mp ends
      obtain ⟨comment, behind, rfl, rfl, noEnd⟩ := ih later
      refine ⟨char :: comment, behind, rfl, rfl, ?_⟩
      rw [List.infix_cons_iff, not_or]
      refine ⟨?_, noEnd⟩
      rintro ⟨tail, same⟩
      cases same
      exact notEnd _ rfl rfl

theorem exists_item {text : List Char} {taken : Nat} (found : item text = some taken) :
    ∃ front rest, text = front ++ rest ∧ taken = front.length ∧ Item front rest := by
  rcases orElse_eq_some.mp found with single | ⟨-, marked⟩
  · obtain ⟨char, rest, rfl, blank⟩ := starts_one _ _ _ single
    rw [one_cons, if_pos blank] at single
    cases single
    exact ⟨[char], rest, rfl, rfl, .blank blank⟩
  · rcases orElse_eq_some.mp marked with line | ⟨-, block⟩
    · obtain ⟨ahead, further, slashes, many, rfl⟩ := andThen_eq_some.mp line
      obtain ⟨rfl, rest, rfl⟩ := eq_append_of_exactly slashes
      rw [List.drop_left] at many
      obtain ⟨comment, behind, rfl, taking, inside, stops⟩ := exists_run (· != '\n') rest
      rw [Pattern.many, taking] at many
      cases many
      refine ⟨'/' :: '/' :: comment, behind, rfl, by simp; omega, .line (fun feed => ?_) ?_⟩
      · simpa using inside _ feed
      · exact fun char head => by simpa using stops char head
    · obtain ⟨ahead, further, opening, ends, rfl⟩ := andThen_eq_some.mp block
      obtain ⟨rfl, rest, rfl⟩ := eq_append_of_exactly opening
      rw [List.drop_left] at ends
      obtain ⟨comment, behind, rfl, rfl, noEnd⟩ := blockCommentEnd_eq_some ends
      exact ⟨'/' :: '*' :: comment ++ ['*', '/'], behind, by simp, by simp; omega, .block noEnd⟩

theorem Item.take {front rest : List Char} (item : Item front rest) (count : Nat) :
    Item front (rest.take count) := by
  cases item with
  | blank blank => exact .blank blank
  | line inside stops =>
      refine .line inside fun char head => stops char ?_
      rw [List.head?_take] at head
      split at head
      · cases head
      · exact head
  | block noEnd => exact .block noEnd

/-- What is read as trivia is white space and comments. -/
theorem gap_take_length (text : List Char) : Gap (text.take (length text)) := by
  fun_induction length text with
  | case1 => exact .nothing
  | case2 char rest further found ih =>
      obtain ⟨front, behind, same, taken, item⟩ := exists_item found
      change further + 1 = front.length at taken
      have left : rest.drop further = behind := by
        rw [← @List.drop_succ_cons _ char, taken, same, List.drop_left]
      rw [left] at ih ⊢
      rw [taken, same, List.take_length_add_append]
      exact .item (item.take _) ih
  | case3 => exact .nothing

theorem gap_of_drop {text : List Char} (whole : text.drop (length text) = []) : Gap text := by
  have gap := gap_take_length text
  rwa [List.take_of_length_le (List.drop_eq_nil_iff.mp whole)] at gap

end Trivia

namespace Loc

/-- The place behind the text `ahead` with which a file begins.  A column counts from the last
line feed, or from the start of the file. -/
def behind (file : String) (ahead : List Char) : Loc where
  file := file
  line := 1 + ahead.count '\n'
  col := 1 + (ahead.reverse.takeWhile (· ≠ '\n')).length
  offset := ahead.length

theorem past_start (file : String) (ahead : List Char) :
    (start file).past ahead = behind file ahead := by
  induction ahead using List.reverseRecOn with
  | nil => rfl
  | append_singleton front char ih =>
      rw [past_append, ih]
      change (behind file front).next char = _
      by_cases feed : char = '\n'
      · subst feed
        simp [next, behind, Int.add_assoc]
      · simp [next, behind, feed, Int.add_assoc]

end Loc

namespace Tree

mutual

/-- The tokens and brackets of a tree in the order of the text, each with its place. -/
def located : Tree → List (Piece × Loc)
  | leaf token => [(⟨token.leading, token.text⟩, token.loc)]
  | group bracket children =>
      (⟨bracket.leading, bracket.delimiter.opening⟩, bracket.loc) :: locatedAll children ++
        [(⟨bracket.closeLeading, bracket.delimiter.closing⟩, bracket.endLoc)]

def locatedAll : List Tree → List (Piece × Loc)
  | [] => []
  | tree :: trees => tree.located ++ locatedAll trees

end

theorem locatedAll_append (left right : List Tree) :
    locatedAll (left ++ right) = locatedAll left ++ locatedAll right := by
  induction left with
  | nil => rfl
  | cons tree trees ih => simp [locatedAll, ih]

mutual

theorem map_fst_located : ∀ tree : Tree, tree.located.map Prod.fst = tree.pieces
  | leaf _ => rfl
  | group bracket children => by
      simp [located, pieces, map_fst_locatedAll children]

theorem map_fst_locatedAll : ∀ trees : List Tree, (locatedAll trees).map Prod.fst = piecesAll trees
  | [] => rfl
  | tree :: trees => by
      simp [locatedAll, piecesAll, map_fst_located tree, map_fst_locatedAll trees]

end

mutual

theorem locs_subset_located : ∀ tree : Tree, tree.locs ⊆ tree.located.map Prod.snd
  | leaf token => by simp [locs, located]
  | group bracket children => by
      have inside := locsAll_subset children
      intro loc member
      rw [locs, List.mem_cons] at member
      rw [located, List.map_append, List.map_cons, List.mem_append, List.mem_cons]
      exact .inl (member.imp_right (inside ·))

theorem locsAll_subset : ∀ trees : List Tree, locsAll trees ⊆ (locatedAll trees).map Prod.snd
  | [] => List.nil_subset _
  | tree :: trees => by
      intro loc member
      rw [locsAll, List.mem_append] at member
      rw [locatedAll, List.map_append, List.mem_append]
      exact member.imp (locs_subset_located tree ·) (locsAll_subset trees ·)

end

end Tree

namespace Fragment

open Headfirst.Tree (Piece Piece.layout layout layout_append locatedAll locatedAll_append
  map_fst_locatedAll piecesAll)

/-- The tokens and brackets that a scan has behind it. -/
def Opened.seen : List Opened → List (Piece × Loc)
  | [] => []
  | innermost :: outer =>
      seen outer ++ locatedAll innermost.before.reverse ++
        [(⟨innermost.leading, String.ofList [innermost.spot.char]⟩, innermost.spot.loc)]

/-- What has been `seen` of the source stands in front of `text`, and each piece of it at its
place. -/
structure Located (file : String) (source : List Char) (seen : List (Piece × Loc)) (loc : Loc)
    (text : List Char) : Prop where
  whole : layout (seen.map Prod.fst) ++ text = source
  here : loc = .behind file (layout (seen.map Prod.fst))
  places : ∀ former piece place latter, seen = former ++ (piece, place) :: latter →
    place = .behind file (layout (former.map Prod.fst) ++ piece.leading.toList)
  gaps : ∀ piece ∈ seen.map Prod.fst, Trivia.Gap piece.leading.toList

section

variable {source file : String} {fragment : Fragment}

/-- Trivia and a lexeme are read. -/
theorem Located.read {source : List Char} {seen : List (Piece × Loc)} {start loc : Loc}
    {text rest : List Char} (located : Located file source seen start text) (piece : Piece)
    (leading : text.take (Trivia.length text) = piece.leading.toList)
    (here : start.past piece.leading.toList = loc)
    (found : text.drop (Trivia.length text) = piece.text.toList ++ rest) :
    Located file source (seen ++ [(piece, loc)]) (loc.past piece.text.toList) rest := by
  have ahead : loc = .behind file (layout (seen.map Prod.fst) ++ piece.leading.toList) := by
    rw [← here, located.here, ← Loc.past_start, ← Loc.past_append, Loc.past_start]
  have pieces : layout ((seen ++ [(piece, loc)]).map Prod.fst) =
      layout (seen.map Prod.fst) ++ piece.leading.toList ++ piece.text.toList := by
    simp [layout, Piece.layout]
  constructor
  case whole =>
    rw [pieces, ← located.whole, ← List.take_append_drop (Trivia.length text) text, leading, found]
    simp only [List.append_assoc]
  case here =>
    rw [pieces, ahead, ← Loc.past_start, ← Loc.past_append, Loc.past_start]
  case places =>
    intro former other place latter same
    rcases List.eq_nil_or_concat latter with rfl | ⟨latter, last, rfl⟩
    · obtain ⟨rfl, single⟩ := List.append_inj' same rfl
      cases single
      exact ahead
    · rw [List.concat_eq_append, ← List.cons_append, ← List.append_assoc] at same
      exact located.places former other place latter (List.append_inj' same rfl).1
  case gaps =>
    intro other member
    rw [List.map_append, List.mem_append] at member
    rcases member with member | single
    · exact located.gaps other member
    · cases List.mem_singleton.mp single
      rw [← leading]
      exact Trivia.gap_take_length text

/-- The scan leaves each token and each bracket at its place. -/
theorem preserved_located (file : String) (source : List Char) :
    PreservedAt fun opened before loc text =>
      Located file source (Opened.seen opened ++ locatedAll before.reverse) loc text where
  opener {opened before start loc text gap char rest delimiter} located taken here found opens := by
    have next := located.read ⟨String.ofList gap, String.ofList [char]⟩ (by simpa using taken)
      (by simpa using here) (by simpa using found)
    rw [String.toList_ofList] at next
    change Located _ _ _ (loc.next char) rest at next
    simpa [Opened.seen, locatedAll] using next
  closer {innermost opened before start loc text gap char rest delimiter} located taken here found
      closes opens := by
    have closing := closing_of_closer closes
    have next := located.read ⟨String.ofList gap, delimiter.closing⟩ (by simpa using taken)
      (by simpa using here) (by simpa [closing] using found)
    rw [closing] at next
    change Located _ _ _ (loc.next char) rest at next
    have opening : delimiter.opening = String.ofList [innermost.spot.char] := by
      rw [← opening_of_opener opens, String.ofList_toList]
    simpa [Opened.seen, locatedAll_append, locatedAll, Tree.located, opening] using next
  token {opened before start loc text gap char rest kind further} located taken here found _ := by
    have lexeme : text.drop (Trivia.length text) =
        (String.ofList (char :: rest.take further)).toList ++ rest.drop further := by
      simpa using found
    have next := located.read ⟨String.ofList gap, String.ofList (char :: rest.take further)⟩
      (by simpa using taken) (by simpa using here) lexeme
    simpa [locatedAll_append, locatedAll, Tree.located] using next

/-- The whole of a source has been seen once it has been read. -/
theorem exists_located (done : read source file = .ok fragment) :
    ∃ loc, Located file source.toList (locatedAll fragment.children) loc
      fragment.bracket.closeLeading.toList := by
  have none : Located file source.toList (Opened.seen [] ++ locatedAll [].reverse) (.start file)
      source.toList := by
    refine ⟨rfl, rfl, fun former piece place latter same => ?_, fun piece member => ?_⟩
    · simp [Opened.seen, locatedAll] at same
    · simp [Opened.seen, locatedAll] at member
  obtain ⟨loc, located⟩ := (preserved_located file source.toList).of_read none done
  rw [List.reverse_reverse, Opened.seen, List.nil_append] at located
  exact ⟨loc, located⟩

/-- All places of a fragment that was read are in its file. -/
theorem file_of_read (done : read source file = .ok fragment) :
    ∀ loc ∈ Tree.locsAll fragment.children, loc.file = file := by
  obtain ⟨_, located⟩ := exists_located done
  intro loc member
  obtain ⟨⟨piece, place⟩, among, rfl⟩ := List.mem_map.mp (Tree.locsAll_subset _ member)
  obtain ⟨former, latter, same⟩ := List.append_of_mem among
  change place.file = file
  rw [located.places former piece place latter same]
  rfl

/-- A fragment that was read has its source in it, trivia is white space and comments, and each
token and each bracket stands where it is said to stand. -/
theorem located_of_read (done : read source file = .ok fragment) :
    layout fragment.tree.pieces = source.toList ∧
      (∀ piece ∈ fragment.tree.pieces, Trivia.Gap piece.leading.toList) ∧
      ∀ former piece loc latter, locatedAll fragment.children = former ++ (piece, loc) :: latter →
        ∃ ahead rest, source.toList = ahead ++ piece.text.toList ++ rest ∧
          ahead = layout (former.map Prod.fst) ++ piece.leading.toList ∧
          loc = .behind file ahead := by
  obtain ⟨_, located⟩ := exists_located done
  have root := (scan_of_read done).2
  refine ⟨layout_of_read done, fun piece member => ?_, fun former piece loc latter same => ?_⟩
  · rw [pieces_tree (by rw [root]), List.mem_cons, List.mem_append, List.mem_singleton] at member
    rcases member with rfl | inside | rfl
    · rw [root]
      exact .nothing
    · exact located.gaps piece (by rwa [map_fst_locatedAll])
    · exact Trivia.gap_of_drop ((preserved_source source.toList).of_read rfl done).2
  · have whole := located.whole
    rw [same, List.map_append, List.map_cons, layout_append] at whole
    refine ⟨_, layout (latter.map Prod.fst) ++ fragment.bracket.closeLeading.toList, ?_, rfl,
      located.places former piece loc latter same⟩
    rw [← whole]
    simp [layout, Piece.layout]

/-- A word behind an empty group, a comment and a string of two lines. -/
theorem located_of_read_lines :
    ∃ fragment former loc latter, read "f(/* a */)\n[\"x\ny\" b] // c" "main.rs" = .ok fragment ∧
      layout fragment.tree.pieces = "f(/* a */)\n[\"x\ny\" b] // c".toList ∧
      locatedAll fragment.children = former ++ (⟨" ", "b"⟩, loc) :: latter ∧
      loc = ⟨"main.rs", 3, 4, 18⟩ := by
  have run : (read "f(/* a */)\n[\"x\ny\" b] // c" "main.rs").toOption.any fun fragment =>
      layout (((locatedAll fragment.children).take 5).map Prod.fst) ==
          "f(/* a */)\n[\"x\ny\"".toList &&
        ((locatedAll fragment.children)[5]?).any (·.1 == ⟨" ", "b"⟩) := by
    decide +kernel
  obtain ⟨fragment, lexed, run⟩ := exists_ok_of_any run
  rw [Bool.and_eq_true, beq_iff_eq, Option.any_eq_true] at run
  obtain ⟨ahead, ⟨piece, loc⟩, found, same⟩ := run
  cases eq_of_beq same
  obtain ⟨inside, split⟩ := List.getElem?_eq_some_iff.mp found
  have parts : locatedAll fragment.children = (locatedAll fragment.children).take 5 ++
      (⟨" ", "b"⟩, loc) :: (locatedAll fragment.children).drop 6 := by
    rw [← split, List.getElem_cons_drop, List.take_append_drop]
  obtain ⟨whole, -, places⟩ := located_of_read lexed
  obtain ⟨_, _, -, rfl, rfl⟩ := places _ _ _ _ parts
  refine ⟨fragment, _, _, _, lexed, whole, parts, ?_⟩
  rw [ahead]
  decide

end

end Fragment

end Headfirst
