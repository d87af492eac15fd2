import Headfirst.Proofs.Again
import Headfirst.Proofs.Rereading

namespace Headfirst

open Headfirst.Tree

/-! The compact form of trees.

A space keeps any token apart from whatever is written behind it.  So a text with one space
between neighbours is read as the tokens and brackets it was written from, and there is only one
way in which brackets belong together. -/

namespace Lexeme

open Pattern

/-- Nothing is written behind a token, or a space is. -/
def Apart (behind : List Char) : Prop :=
  ∀ char ∈ behind.head?, char = ' '

variable {text behind : List Char}

/-- No operator has a space in it. -/
theorem Apart.lengthensOperator (apart : Apart behind) : lengthensOperator text behind = false := by
  rw [Lexeme.lengthensOperator, Bool.and_eq_false_iff]
  refine .inr (List.any_eq_false.mpr fun operator member longer => ?_)
  rw [Bool.and_eq_true, decide_eq_true_eq, List.isPrefixOf_iff_prefix,
    ← String.length_toList] at longer
  obtain ⟨less, tail, same⟩ := longer
  obtain ⟨right, parts, rfl⟩ := exists_within same (Nat.le_of_lt less)
  have spaceless : ∀ operator ∈ longOperators, ' ' ∉ operator.toList := by decide
  refine spaceless operator member ?_
  cases right with
  | nil => simp [parts] at less
  | cons char more => simp [parts, apart char rfl]

theorem Apart.cases (apart : Apart behind) : behind = [] ∨ ∃ rest, behind = ' ' :: rest := by
  cases behind with
  | nil => exact .inl rfl
  | cons char rest =>
      cases apart char rfl
      exact .inr ⟨rest, rfl⟩

/-- A token fuses neither with a space nor with the end of a text. -/
theorem Apart.fuses (apart : Apart behind) : fuses text behind = false := by
  have noComment : Trivia.item ('/' :: behind) = none := by
    rcases apart.cases with rfl | ⟨rest, rfl⟩ <;> rfl
  have noFraction : opensFraction behind = false := by
    rcases apart.cases with rfl | ⟨rest, rfl⟩ <;> rfl
  have noExponent : opensExponent behind = false := by
    rcases apart.cases with rfl | ⟨_ | _, rfl⟩ <;> rfl
  have noWord : opensRawWord behind = false := by
    rcases apart.cases with rfl | ⟨rest, rfl⟩ <;> rfl
  have noString : hashedString behind = none := by
    rcases apart.cases with rfl | ⟨rest, rfl⟩ <;> rfl
  simp [Lexeme.fuses, opensComment, noComment, apart.lengthensOperator, lengthensNumber,
    noFraction, noExponent, lengthensWord, noWord, opensRawString, noString]

theorem fuses_nil (behind : List Char) : Lexeme.fuses [] behind = false := by
  simp [Lexeme.fuses, opensComment, Lexeme.lengthensOperator, lengthensNumber, lengthensWord,
    opensRawString]

/-- A token followed by a space is read as the same token. -/
theorem Apart.reads {rest : List Char} {kind : TokenKind} (apart : Apart behind)
    (reads : Reads (text ++ rest) kind text.length) (notEmpty : text ≠ []) :
    Reads (text ++ behind) kind text.length := by
  refine ((reads_iff_not_fuses reads notEmpty fun _ _ _ => ?_).mpr (by simp [apart.fuses])).1
  intro char head
  cases apart char head
  decide

end Lexeme

open Lexeme (Reads Apart)
open Fragment (exists_brackets)

/-- A token by its kind and text, or a bracket. -/
inductive Symbol where
  | token (kind : TokenKind) (text : String)
  | opening (delimiter : Delimiter)
  | closing (delimiter : Delimiter)
deriving DecidableEq, Repr

namespace Symbol

def text : Symbol → String
  | token _ text => text
  | opening delimiter => delimiter.opening
  | closing delimiter => delimiter.closing

def Legible : Symbol → Prop
  | token kind text =>
      text ≠ "" ∧ ∃ rest, Reads (text.toList ++ rest) kind text.toList.length
  | opening delimiter | closing delimiter => delimiter ≠ .invisible

/-- The symbol that is read at the front of a text. -/
def first : List Char → Option Symbol
  | [] => none
  | char :: rest =>
      match openerDelimiter? char, closerDelimiter? char with
      | some delimiter, _ => some (.opening delimiter)
      | none, some delimiter => some (.closing delimiter)
      | none, none =>
          (Lexeme.first (char :: rest)).map fun (kind, taken) =>
            .token kind (String.ofList ((char :: rest).take taken))

variable {symbol other : Symbol} {behind : List Char} {symbols left right : List Symbol}

theorem Legible.text_ne (legible : symbol.Legible) : symbol.text.toList ≠ [] := by
  cases symbol with
  | token kind text => exact mt String.toList_eq_nil_iff.mp legible.1
  | opening delimiter =>
      obtain ⟨opener, closer, written, -⟩ := exists_brackets legible
      simp [Symbol.text, written]
  | closing delimiter =>
      obtain ⟨opener, closer, -, -, written, -⟩ := exists_brackets legible
      simp [Symbol.text, written]

/-- A symbol is read where it was written, whatever follows the space behind it. -/
theorem first_append (legible : symbol.Legible) (apart : Apart behind) :
    first (symbol.text.toList ++ behind) = some symbol := by
  cases symbol with
  | token kind text =>
      have notEmpty := legible.text_ne
      obtain ⟨-, rest, reads⟩ := legible
      have found := Lexeme.reads_iff.mp (apart.reads reads notEmpty)
      change first (text.toList ++ behind) = _
      cases characters : text.toList with
      | nil => exact absurd characters notEmpty
      | cons char more =>
          rw [characters, List.cons_append] at found
          rw [List.cons_append, first, openerDelimiter?_token found, closerDelimiter?_token found]
          simp only [found, Option.map_some]
          rw [← List.cons_append, List.take_left, ← characters, String.ofList_toList]
  | opening delimiter =>
      obtain ⟨opener, closer, written, opens, -⟩ := exists_brackets legible
      rw [Symbol.text, written, List.singleton_append, first, opens]
  | closing delimiter =>
      obtain ⟨opener, closer, -, -, written, closes⟩ := exists_brackets legible
      rw [Symbol.text, written, List.singleton_append, first, openerDelimiter?_closer closes,
        closes]

/-- Symbols with a space in front of each. -/
def spread (symbols : List Symbol) : List Char :=
  symbols.flatMap fun symbol => ' ' :: symbol.text.toList

theorem apart_spread (symbols : List Symbol) : Apart (spread symbols) := by
  cases symbols with
  | nil => simp [spread, Apart]
  | cons symbol symbols => simp [spread, Apart]

theorem spread_injective (first : ∀ symbol ∈ left, symbol.Legible)
    (second : ∀ symbol ∈ right, symbol.Legible) (same : spread left = spread right) :
    left = right := by
  induction left generalizing right with
  | nil =>
      cases right with
      | nil => rfl
      | cons other right => simp [spread] at same
  | cons symbol left ih =>
      cases right with
      | nil => simp [spread] at same
      | cons other right =>
          rw [List.forall_mem_cons] at first second
          have same : symbol.text.toList ++ spread left = other.text.toList ++ spread right := by
            simpa [spread] using same
          have read := first_append first.1 (apart_spread left)
          rw [same, first_append second.1 (apart_spread right)] at read
          cases read
          rw [ih first.2 second.2 (List.append_cancel_left same)]

/-- Symbols with one space between neighbours. -/
theorem toList_intercalate (symbols : List Symbol) :
    (" ".intercalate (symbols.map text)).toList = (spread symbols).tail := by
  rw [String.toList_intercalate, List.map_map]
  induction symbols with
  | nil => rfl
  | cons symbol symbols ih =>
      cases symbols with
      | nil => simp [spread]
      | cons other symbols =>
          rw [List.map_cons, List.map_cons, List.intercalate_cons_cons, ← List.map_cons, ih]
          simp [spread]

theorem eq_of_intercalate (first : ∀ symbol ∈ left, symbol.Legible)
    (second : ∀ symbol ∈ right, symbol.Legible)
    (same : " ".intercalate (left.map text) = " ".intercalate (right.map text)) :
    left = right := by
  have same : (spread left).tail = (spread right).tail := by
    rw [← toList_intercalate, ← toList_intercalate, same]
  cases left with
  | nil =>
      cases right with
      | nil => rfl
      | cons other right =>
          have empty := (List.append_eq_nil_iff.mp same.symm).1
          exact absurd empty (second other List.mem_cons_self).text_ne
  | cons symbol left =>
      cases right with
      | nil =>
          have empty := (List.append_eq_nil_iff.mp same).1
          exact absurd empty (first symbol List.mem_cons_self).text_ne
      | cons other right =>
          exact spread_injective first second (congrArg (' ' :: ·) same)

end Symbol

namespace Tree

mutual

/-- The tokens and brackets of a tree in the order of the text. -/
def symbols : Tree → List Symbol
  | leaf token => [.token token.kind token.text]
  | group bracket children =>
      .opening bracket.delimiter :: symbolsAll children ++ [.closing bracket.delimiter]

def symbolsAll : List Tree → List Symbol
  | [] => []
  | tree :: trees => tree.symbols ++ symbolsAll trees

end

mutual

theorem map_text_symbols : ∀ tree : Tree, tree.isVisible = true →
    tree.symbols.map Symbol.text = tree.words
  | leaf token, _ => rfl
  | group bracket children, visible => by
      simp only [isVisible, Bool.and_eq_true, bne_iff_ne] at visible
      simp [symbols, words, Symbol.text, visible.1, map_text_symbolsAll children visible.2]

theorem map_text_symbolsAll : ∀ trees : List Tree, areVisible trees = true →
    (symbolsAll trees).map Symbol.text = wordsAll trees
  | [], _ => rfl
  | tree :: trees, visible => by
      simp only [areVisible, Bool.and_eq_true] at visible
      simp [symbolsAll, wordsAll, map_text_symbols tree visible.1,
        map_text_symbolsAll trees visible.2]

end

mutual

theorem legible_symbols : ∀ tree : Tree, tree.isVisible = true → tree.Legible →
    ∀ symbol ∈ tree.symbols, symbol.Legible
  | leaf token, _, legible, symbol, member => by
      cases List.mem_singleton.mp member
      exact ⟨legible.1, legible.2.1⟩
  | group bracket children, visible, legible, symbol, member => by
      simp only [isVisible, Bool.and_eq_true, bne_iff_ne] at visible
      rw [symbols, List.cons_append, List.mem_cons, List.mem_append, List.mem_singleton] at member
      rcases member with rfl | inside | rfl
      · exact visible.1
      · exact legible_symbolsAll children visible.2 legible.2.2 symbol inside
      · exact visible.1

theorem legible_symbolsAll : ∀ trees : List Tree, areVisible trees = true → LegibleAll trees →
    ∀ symbol ∈ symbolsAll trees, symbol.Legible
  | [], _, _, symbol, member => absurd member List.not_mem_nil
  | tree :: trees, visible, legible, symbol, member => by
      simp only [areVisible, Bool.and_eq_true] at visible
      rcases List.mem_append.mp member with here | later
      · exact legible_symbols tree visible.1 legible.1 symbol here
      · exact legible_symbolsAll trees visible.2 legible.2 symbol later

end

/-- No tree begins with what comes next: nothing does, or a closing bracket. -/
def Ends (rest : List Symbol) : Prop :=
  ∀ symbol ∈ rest.head?, ∃ delimiter, symbol = .closing delimiter

theorem ends_closing (delimiter : Delimiter) (rest : List Symbol) :
    Ends (.closing delimiter :: rest) := by
  simp [Ends]

theorem not_ends (tree : Tree) (trees : List Tree) (rest : List Symbol) :
    ¬Ends (symbolsAll (tree :: trees) ++ rest) := by
  cases tree <;> simp [Ends, symbolsAll, symbols]

/-- Which brackets belong together can be told from the symbols alone. -/
theorem plainAll_of_symbols : ∀ (trees others : List Tree) {rest behind : List Symbol},
    Ends rest → Ends behind → symbolsAll trees ++ rest = symbolsAll others ++ behind →
      plainAll trees = plainAll others ∧ rest = behind
  | [], [], _, _, _, _, same => ⟨rfl, same⟩
  | [], other :: others, rest, behind, ends, _, same => by
      change rest = _ at same
      exact absurd (same ▸ ends) (not_ends other others behind)
  | tree :: trees, [], rest, behind, _, ends, same => by
      change _ = behind at same
      exact absurd (same ▸ ends) (not_ends tree trees rest)
  | .leaf token :: trees, .leaf other :: others, rest, behind, first, second, same => by
      simp only [symbolsAll, symbols, List.cons_append, List.nil_append, List.cons.injEq,
        Symbol.token.injEq] at same
      obtain ⟨⟨kind, text⟩, later⟩ := same
      obtain ⟨plain, left⟩ := plainAll_of_symbols trees others first second later
      simp [plainAll, Tree.plain, Token.plain, kind, text, plain, left]
  | .leaf token :: trees, .group bracket children :: others, _, _, _, _, same => by
      simp [symbolsAll, symbols] at same
  | .group bracket children :: trees, .leaf token :: others, _, _, _, _, same => by
      simp [symbolsAll, symbols] at same
  | .group bracket children :: trees, .group other inside :: others, rest, behind, first, second,
      same => by
      simp only [symbolsAll, symbols, List.cons_append, List.nil_append, List.append_assoc,
        List.cons.injEq, Symbol.opening.injEq] at same
      obtain ⟨delimiter, within⟩ := same
      obtain ⟨plainChildren, left⟩ :=
        plainAll_of_symbols children inside (ends_closing _ _) (ends_closing _ _) within
      obtain ⟨plain, left⟩ :=
        plainAll_of_symbols trees others first second (List.cons.inj left).2
      simp [plainAll, Tree.plain, delimiter, plainChildren, plain, left]

/-- Trees that are written in the same compact text are the same up to places and trivia. -/
theorem plainAll_of_compact {trees others : List Tree} (first : areVisible trees = true)
    (second : areVisible others = true) (legible : LegibleAll trees) (again : LegibleAll others)
    (same : " ".intercalate (wordsAll trees) = " ".intercalate (wordsAll others)) :
    plainAll trees = plainAll others := by
  rw [← map_text_symbolsAll trees first, ← map_text_symbolsAll others second] at same
  have symbols := Symbol.eq_of_intercalate (legible_symbolsAll trees first legible)
    (legible_symbolsAll others second again) same
  have nothing : Ends [] := by simp [Ends]
  exact (plainAll_of_symbols trees others nothing nothing (by rw [symbols])).1

end Tree

/-! Trees laid out anew, so that printing gives the compact form. -/

namespace Symbol

/-- Symbols as they are printed with one space between neighbours, behind the given trivia. -/
def pieces (leading : String) : List Symbol → List Piece
  | [] => []
  | symbol :: symbols => ⟨leading, symbol.text⟩ :: pieces " " symbols

theorem pieces_append (left right : List Symbol) :
    pieces " " (left ++ right) = pieces " " left ++ pieces " " right := by
  induction left with
  | nil => rfl
  | cons symbol symbols ih => simp [pieces, ih]

theorem joined_space (last : Option Char) (symbols : List Symbol) :
    joined last (pieces " " symbols ++ [⟨"", ""⟩]) = spread symbols := by
  induction symbols generalizing last with
  | nil => simp [pieces, joined, written, spread]
  | cons symbol symbols ih => simp [pieces, joined, written, spread, ih]

theorem joined_pieces (symbols : List Symbol) :
    joined none (pieces "" symbols ++ [⟨"", ""⟩]) = (spread symbols).tail := by
  cases symbols with
  | nil => simp [pieces, joined, written, spread]
  | cons symbol symbols =>
      rw [pieces, List.cons_append, joined, joined_space]
      simp [written, spread]

theorem collides_pieces (leading : String) (last : Option Char) (symbols : List Symbol) :
    collides last (pieces leading symbols ++ [⟨"", ""⟩]) = false := by
  induction symbols generalizing leading last with
  | nil => simp [pieces, collides, joined, Lexeme.fuses_nil]
  | cons symbol symbols ih =>
      rw [pieces, List.cons_append, collides, joined_space, (apart_spread symbols).fuses, ih]
      rfl

end Symbol

namespace Tree

mutual

/-- A tree with one space between its tokens and brackets, behind the given trivia. -/
def compacted (leading : String) : Tree → Tree
  | leaf token => leaf { token with leading }
  | group bracket children =>
      group { bracket with leading, closeLeading := " " } (compactedAll " " children)

def compactedAll (leading : String) : List Tree → List Tree
  | [] => []
  | tree :: trees => tree.compacted leading :: compactedAll " " trees

end

mutual

theorem pieces_compacted (leading : String) : ∀ tree : Tree,
    (tree.compacted leading).pieces = Symbol.pieces leading tree.symbols
  | leaf token => rfl
  | group bracket children => by
      simp [compacted, pieces, symbols, Symbol.pieces, Symbol.pieces_append,
        piecesAll_compactedAll " " children, Symbol.text]

theorem piecesAll_compactedAll (leading : String) : ∀ trees : List Tree,
    piecesAll (compactedAll leading trees) = Symbol.pieces leading (symbolsAll trees)
  | [] => rfl
  | tree :: trees => by
      rw [compactedAll, piecesAll, pieces_compacted leading tree, piecesAll_compactedAll " " trees]
      cases tree <;> simp [symbolsAll, symbols, Symbol.pieces, Symbol.pieces_append]

end

mutual

theorem plain_compacted (leading : String) : ∀ tree : Tree,
    (tree.compacted leading).plain = tree.plain
  | leaf token => rfl
  | group bracket children => by
      rw [compacted, plain, plain, plainAll_compactedAll " " children]

theorem plainAll_compactedAll (leading : String) : ∀ trees : List Tree,
    plainAll (compactedAll leading trees) = plainAll trees
  | [] => rfl
  | tree :: trees => by
      rw [compactedAll, plainAll, plainAll, plain_compacted leading tree,
        plainAll_compactedAll " " trees]

end

mutual

theorem isVisible_plain : ∀ tree : Tree, tree.plain.isVisible = tree.isVisible
  | leaf token => rfl
  | group bracket children => by rw [plain, isVisible, isVisible, areVisible_plainAll children]

theorem areVisible_plainAll : ∀ trees : List Tree, areVisible (plainAll trees) = areVisible trees
  | [] => rfl
  | tree :: trees => by
      rw [plainAll, areVisible, areVisible, isVisible_plain tree, areVisible_plainAll trees]

end

mutual

theorem depth_plain : ∀ tree : Tree, tree.plain.depth = tree.depth
  | leaf token => rfl
  | group bracket children => by rw [plain, depth, depth, depthAll_plainAll children]

theorem depthAll_plainAll : ∀ trees : List Tree, depthAll (plainAll trees) = depthAll trees
  | [] => rfl
  | tree :: trees => by
      rw [plainAll, depthAll, depthAll, depth_plain tree, depthAll_plainAll trees]

end

theorem complete_spaceText : Trivia.Complete " ".toList :=
  Trivia.complete_space

mutual

theorem legible_compacted {leading : String} (complete : Trivia.Complete leading.toList) :
    ∀ tree : Tree, tree.Legible → (tree.compacted leading).Legible
  | leaf _, legible => ⟨legible.1, legible.2.1, complete⟩
  | group _ children, legible =>
      ⟨complete, complete_spaceText,
        legibleAll_compactedAll complete_spaceText children legible.2.2⟩

theorem legibleAll_compactedAll {leading : String} (complete : Trivia.Complete leading.toList) :
    ∀ trees : List Tree, LegibleAll trees → LegibleAll (compactedAll leading trees)
  | [], _ => trivial
  | tree :: trees, legible =>
      ⟨legible_compacted complete tree legible.1,
        legibleAll_compactedAll complete_spaceText trees legible.2⟩

end

end Tree

namespace Fragment

open Grammar (maxNesting)

/-- A fragment laid out with one space between its tokens and brackets. -/
def compacted (fragment : Fragment) : Fragment :=
  ⟨{ delimiter := .invisible }, compactedAll "" fragment.children⟩

variable {fragment : Fragment}

theorem pieces_compacted : fragment.compacted.tree.pieces =
    ⟨"", ""⟩ :: (Symbol.pieces "" (symbolsAll fragment.children) ++ [⟨"", ""⟩]) := by
  have pieces := @pieces_tree fragment.compacted rfl
  rwa [compacted, piecesAll_compactedAll] at pieces

theorem collides_compacted : collides none fragment.compacted.tree.pieces = false := by
  rw [pieces_compacted, collides, Symbol.collides_pieces]
  simp [Lexeme.fuses_nil]

theorem ahead_compacted (legible : LegibleAll fragment.compacted.children) :
    Ahead none (piecesAll fragment.compacted.children ++ [⟨"", ""⟩]) := by
  refine ⟨fun piece member => ?_, ?_⟩
  · rcases List.mem_append.mp member with inside | last
    · exact stopsAt_piecesAll fragment.compacted.children legible piece inside
    · cases List.mem_singleton.mp last
      simp
  · rw [compacted, piecesAll_compactedAll, Symbol.collides_pieces]

/-- Pieces that are printed from trees nested too deeply to be read. -/
def Sinks (pieces : List Piece) (trees : List Tree) : Prop :=
  ∀ (last : Option Char) (more : List Piece), Ahead last (pieces ++ more) →
    ∀ (opened : List Opened) (before : List Tree) (loc : Loc) (gap : List Char),
      Trivia.Complete gap → opened.length ≤ maxNesting →
      maxNesting < opened.length + depthAll trees →
      scan opened before loc (gap ++ joined last (pieces ++ more)) = .tooDeep

mutual

theorem sinks_tree : ∀ tree : Tree, tree.isVisible = true → tree.Legible →
    Sinks tree.pieces [tree]
  | .leaf token, _, _ => by
      intro last more ahead opened before loc gap complete fits deep
      simp only [depthAll, depth] at deep
      omega
  | .group bracket children, visible, legible => by
      intro last more ahead opened before loc gap complete fits deep
      simp only [isVisible, Bool.and_eq_true, bne_iff_ne] at visible
      obtain ⟨opener, closer, openerText, opens, -⟩ := exists_brackets visible.1
      rw [Tree.pieces, List.append_assoc, List.cons_append] at ahead ⊢
      obtain ⟨trivia, place, start⟩ :=
        @scan_written opened before loc gap complete last
          ⟨bracket.leading, bracket.delimiter.opening⟩ legible.1 (joined _ _)
          (by rw [openerText]; exact Trivia.length_opener opens)
      rw [joined, start, openerText, List.singleton_append, scanTree_opener opens]
      split
      · rename_i less
        simp only [depthAll, depth] at deep
        exact sinks_trees children visible.2 legible.2.2 _ _ ahead.tail _ [] _ []
          Trivia.complete_nil less (by rw [List.length_cons]; omega)
      · rfl

theorem sinks_trees : ∀ trees : List Tree, areVisible trees = true → LegibleAll trees →
    Sinks (piecesAll trees) trees
  | [], _, _ => by
      intro last more ahead opened before loc gap complete fits deep
      simp only [depthAll] at deep
      omega
  | tree :: trees, visible, legible => by
      intro last more ahead opened before loc gap complete fits deep
      simp only [areVisible, Bool.and_eq_true] at visible
      rw [piecesAll, List.append_assoc] at ahead ⊢
      by_cases here : maxNesting < opened.length + depthAll [tree]
      · exact sinks_tree tree visible.1 legible.1 _ _ ahead opened before loc gap complete fits here
      · have reads := rereads_tree tree legible.1
        rw [flatten_of_isVisible tree visible.1] at reads
        obtain ⟨again, loc', gap', -, complete', goesOn⟩ :=
          reads _ _ ahead opened before loc gap complete (Nat.le_of_not_lt here)
        rw [goesOn]
        simp only [depthAll] at deep here
        exact sinks_trees trees visible.2 legible.2 _ _ ahead.behind opened _ loc' gap' complete'
          fits (by omega)

end

section

variable (invisible : fragment.bracket.delimiter = .invisible)
  (visible : areVisible fragment.children = true)

include invisible

theorem compact_eq : fragment.tree.compact = " ".intercalate (wordsAll fragment.children) := by
  rw [Tree.compact, Fragment.tree, Tree.words, if_pos invisible]

include visible

theorem render_compacted : fragment.compacted.tree.render = fragment.tree.compact := by
  have printed := @toList_render fragment.compacted rfl
  rw [compacted, piecesAll_compactedAll] at printed
  rw [← String.toList_inj, compact_eq invisible, ← map_text_symbolsAll _ visible,
    Symbol.toList_intercalate, ← Symbol.joined_pieces]
  exact printed

/-- The compact text of trees without invisible groups is read as the same trees, unless they are
nested too deeply to be read at all. -/
theorem read_compact (legible : LegibleAll fragment.children) (file : String) :
    if depthAll fragment.children ≤ maxNesting then
      ∃ again, read fragment.tree.compact file = .ok again ∧
        plainAll again.children = plainAll fragment.children
    else
      read fragment.tree.compact file =
        .error ⟨.bracketsTooDeep,
          .point (firstOpener (.start file) fragment.tree.compact.toList), none⟩ := by
  have plain : plainAll fragment.compacted.children = plainAll fragment.children :=
    plainAll_compactedAll "" fragment.children
  have depth : depthAll fragment.compacted.children = depthAll fragment.children := by
    rw [← depthAll_plainAll, plain, depthAll_plainAll]
  have visible : areVisible fragment.compacted.children = true := by
    rw [← areVisible_plainAll, plain, areVisible_plainAll, visible]
  have whole := flattenAll_of_areVisible _ visible
  have legible : LegibleAll fragment.compacted.children :=
    legibleAll_compactedAll (by exact Trivia.complete_nil) fragment.children legible
  rw [← render_compacted invisible ‹_›, ← plain, ← depth]
  split
  case isTrue shallow =>
    have again := read_render rfl rfl (by simp [compacted]) legible (by rwa [whole])
      collides_compacted file
    rwa [whole] at again
  case isFalse deep =>
    have sinks := sinks_trees _ visible legible _ _ (ahead_compacted legible) [] [] (.start file) []
      Trivia.complete_nil (Nat.zero_le _) (by simpa using deep)
    have printed := @toList_render fragment.compacted rfl
    change _ = joined none (_ ++ [⟨"", ""⟩]) at printed
    rw [List.nil_append, ← printed] at sinks
    rw [read_eq, sinks]
    rfl

end

/-- A fragment that was read, or the result of a run over one, without the groups in it that have
no brackets. -/
inductive Sourced : Fragment → Prop where
  | read {source file : String} {fragment : Fragment} :
      read source file = .ok fragment → Sourced fragment
  | fronted {source file : String} {settings : Settings} {fragment result : Fragment} :
      read source file = .ok fragment → (fragment.front settings).result = .ok result →
        Sourced { result with children := flattenAll result.children }

theorem Sourced.facts (sourced : Sourced fragment) :
    fragment.bracket.delimiter = .invisible ∧ areVisible fragment.children = true ∧
      LegibleAll fragment.children := by
  cases sourced with
  | read done =>
      exact ⟨by rw [(scan_of_read done).2], areVisible_of_read done, legibleAll_of_read done⟩
  | @fronted source file settings fragment result done ran =>
      obtain ⟨final, _, _, -, rfl, -⟩ := front_final ran
      exact ⟨by rw [(scan_of_read done).2], areVisible_flattenAll _,
        legibleAll_flattenAll _ (legibleAll_of_front ran (legibleAll_of_read done))⟩

/-- The compact form is canonical.  It is read again as the tokens and groups it was printed from,
unless these are nested too deeply to be read, and no other tokens and groups have it. -/
theorem compact_canonical (sourced : Sourced fragment) :
    (∀ file, if depthAll fragment.children ≤ maxNesting then
        ∃ again, read fragment.tree.compact file = .ok again ∧
          again.tree.plain = fragment.tree.plain
      else
        read fragment.tree.compact file =
          .error ⟨.bracketsTooDeep,
            .point (firstOpener (.start file) fragment.tree.compact.toList), none⟩) ∧
      ∀ other, Sourced other → other.tree.compact = fragment.tree.compact →
        other.tree.plain = fragment.tree.plain := by
  obtain ⟨invisible, visible, legible⟩ := sourced.facts
  constructor
  · intro file
    have reads := read_compact invisible visible legible file
    split at reads
    · rename_i shallow
      obtain ⟨again, done, same⟩ := reads
      rw [if_pos shallow]
      refine ⟨again, done, ?_⟩
      rw [Fragment.tree, Fragment.tree, Tree.plain, Tree.plain, same, (scan_of_read done).2,
        invisible]
    · rename_i deep
      rwa [if_neg deep]
  · intro other comes same
    obtain ⟨root, seen, legibleOther⟩ := comes.facts
    rw [compact_eq root, compact_eq invisible] at same
    have plain := plainAll_of_compact seen visible legibleOther legible same
    rw [Fragment.tree, Fragment.tree, Tree.plain, Tree.plain, plain, root, invisible]

/-- A group without brackets in another one, both of them dissolved. -/
theorem compact_canonical_compound :
    ∃ fragment again, Sourced fragment ∧ fragment.tree.compact = "& mut a + 1.5" ∧
      read "& mut a + 1.5" "main.rs" = .ok again ∧ again.tree.plain = fragment.tree.plain := by
  have run : (read "a+1.5::(&mut)" "main.rs").toOption.any fun fragment =>
      (fragment.front { parenthesize := false, keepGroups := true }).result.toOption.any
        fun result =>
          depthAll (flattenAll result.children) ≤ maxNesting &&
            (Fragment.tree { result with children := flattenAll result.children }).compact ==
              "& mut a + 1.5" := by
    decide +kernel
  obtain ⟨fragment, lexed, run⟩ := exists_ok_of_any run
  obtain ⟨result, succeeded, run⟩ := exists_ok_of_any run
  simp only [Bool.and_eq_true, beq_iff_eq, decide_eq_true_eq] at run
  have sourced := Sourced.fronted lexed succeeded
  have reads := (compact_canonical sourced).1 "main.rs"
  rw [if_pos run.1, run.2] at reads
  obtain ⟨again, done, same⟩ := reads
  exact ⟨_, again, sourced, run.2, done, same⟩

end Fragment

end Headfirst
