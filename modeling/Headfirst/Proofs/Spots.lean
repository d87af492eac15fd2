import Headfirst.Proofs.Locating

namespace Headfirst

open Headfirst.Tree

/-! The characters at which a source is read, and those at which it is refused.

A scan keeps account of where it is.  So whatever it leaves behind, and whatever it ends at, stands
in the source at the place that it is said to have. -/

theorem Trivia.not_isBlank_of_drop {text rest : List Char} {char : Char}
    (found : text.drop (length text) = char :: rest) : Text.isBlank char = false := by
  fun_induction length text with
  | case1 => cases found
  | case2 first text further matched ih =>
      rw [Nat.add_right_comm, List.drop_succ_cons, ← List.drop_drop] at found
      exact ih found
  | case3 first text noItem =>
      cases found
      refine Bool.eq_false_iff.mpr fun blank => ?_
      exact noItem 0 (item_blank blank)

/-- A character of the source at its place, which is no white space, in front of `rest`. -/
structure Spot.Stands (file : String) (source : List Char) (spot : Spot) (rest : List Char) :
    Prop where
  here : ∃ ahead, source = ahead ++ spot.char :: rest ∧ spot.loc = .behind file ahead
  visible : Text.isBlank spot.char = false

/-- A tree all of whose places are those of such characters. -/
def Tree.Stands (file : String) (source : List Char) (tree : Tree) : Prop :=
  ∀ place ∈ tree.locs, ∃ char rest, Spot.Stands file source ⟨place, char⟩ rest

theorem Tree.stands_group {file : String} {source : List Char} {bracket : Bracket}
    {children : List Tree} :
    (group bracket children).Stands file source ↔
      (∃ char rest, Spot.Stands file source ⟨bracket.loc, char⟩ rest) ∧
        ∀ child ∈ children, child.Stands file source := by
  rw [Stands, locs, List.forall_mem_cons]
  refine and_congr_right fun _ => ⟨fun inside child member place within => ?_, ?_⟩
  · exact inside place (mem_locsAll.mpr ⟨child, member, within⟩)
  · intro inside place member
    obtain ⟨child, among, within⟩ := mem_locsAll.mp member
    exact inside child among place within

namespace Fragment

variable {file : String} {source : List Char}

/-- What a scan has behind it stands in the source, the brackets that are open among it, and the
scan itself stands where it says. -/
structure Scanning (file : String) (source : List Char) (opened : List Opened)
    (before : List Tree) (loc : Loc) (text : List Char) : Prop where
  here : ∃ ahead, source = ahead ++ text ∧ loc = .behind file ahead ∧
    opened.length ≤ ahead.countP (openerDelimiter? · |>.isSome)
  trees : ∀ tree ∈ before, tree.Stands file source
  marks : ∀ bracket ∈ opened, (∃ rest, bracket.spot.Stands file source rest) ∧
    ∀ tree ∈ bracket.before, tree.Stands file source

namespace Scanning

variable {opened : List Opened} {before : List Tree} {loc : Loc} {text front rest : List Char}

theorem past (scanning : Scanning file source opened before loc (front ++ rest)) :
    Scanning file source opened before (loc.past front) rest := by
  obtain ⟨ahead, rfl, rfl, few⟩ := scanning.here
  refine ⟨⟨ahead ++ front, by simp, ?_, ?_⟩, scanning.trees, scanning.marks⟩
  · rw [← Loc.past_start, ← Loc.past_append, Loc.past_start]
  · rw [List.countP_append]
    exact Nat.le_add_right_of_le few

/-- A bracket is opened where one stands. -/
theorem openers {char : Char} (scanning : Scanning file source opened before loc (char :: rest))
    (opens : (openerDelimiter? char).isSome) :
    ∃ ahead, source = ahead ++ rest ∧ loc.next char = .behind file ahead ∧
      opened.length + 1 ≤ ahead.countP (openerDelimiter? · |>.isSome) := by
  obtain ⟨ahead, rfl, rfl, few⟩ := scanning.here
  refine ⟨ahead ++ [char], by simp, ?_, ?_⟩
  · rw [← Loc.past_start, ← Loc.past_start, Loc.past_append]
    rfl
  · rw [List.countP_append, List.countP_singleton, if_pos opens]
    exact Nat.succ_le_succ few

theorem stands {char : Char} (scanning : Scanning file source opened before loc (char :: rest))
    (visible : Text.isBlank char = false) : Spot.Stands file source ⟨loc, char⟩ rest := by
  obtain ⟨ahead, whole, here, -⟩ := scanning.here
  exact ⟨⟨ahead, whole, here⟩, visible⟩

end Scanning

/-- What a scan ends with stands in the source, and what is nested too deeply is among as many
brackets. -/
def Scanned.Stands (file : String) (source : List Char) : Scanned → Prop
  | .complete trees _ => ∀ tree ∈ trees, tree.Stands file source
  | .noToken spot => ∃ rest, spot.Stands file source rest ∧
      ∀ kind further, Lexeme.first (spot.char :: rest) ≠ some (kind, further + 1)
  | .stray spot | .unclosed spot => ∃ rest, spot.Stands file source rest
  | .tooDeep => Grammar.maxNesting < source.countP (openerDelimiter? · |>.isSome)

theorem scan_stands (file : String) (source : List Char) :
    ∀ opened before loc text, Scanning file source opened before loc text →
      (scan opened before loc text).Stands file source := by
  refine (scan.mutual_induct _ (fun opened before leading loc behind =>
    Scanning file source opened before loc behind →
      (∀ char ∈ behind.head?, Text.isBlank char = false) →
      (scanTree opened before leading loc behind).Stands file source)
    ?gap ?complete ?unclosed ?opener ?tooDeep ?strayCloser ?closer ?otherCloser ?token
    ?noToken).1
  case gap =>
    intro opened before loc text gap ih scanning
    rw [scan_eq]
    rw [← List.take_append_drop (Trivia.length text) text] at scanning
    refine ih scanning.past ?_
    intro char head
    obtain ⟨rest, found⟩ := List.head?_eq_some_iff.mp head
    exact Trivia.not_isBlank_of_drop found
  case complete =>
    intro before leading loc scanning _
    rw [scanTree_complete]
    intro tree member
    exact scanning.trees tree (List.mem_reverse.mp member)
  case unclosed =>
    intro before leading loc innermost outer scanning _
    rw [scanTree_unclosed]
    exact (scanning.marks innermost List.mem_cons_self).1
  case opener =>
    intro opened before leading loc char rest delimiter opens fits ih scanning visible
    rw [scanTree_opener opens, if_pos fits]
    have here := scanning.stands (visible char rfl)
    have next := scanning.openers (Option.isSome_of_eq_some opens)
    refine ih ⟨next, by simp, List.forall_mem_cons.mpr ⟨?_, scanning.marks⟩⟩
    exact ⟨⟨rest, here⟩, scanning.trees⟩
  case tooDeep =>
    intro opened before leading loc char rest delimiter opens full scanning _
    rw [scanTree_opener opens, if_neg full]
    obtain ⟨ahead, whole, -, many⟩ := scanning.openers (Option.isSome_of_eq_some opens)
    rw [Scanned.Stands, whole, List.countP_append]
    omega
  case strayCloser =>
    intro before leading loc char rest delimiter closes _ scanning visible
    rw [scanTree_strayCloser closes]
    exact ⟨rest, scanning.stands (visible char rfl)⟩
  case closer =>
    intro before leading loc char rest delimiter closes _ innermost outer opens bracket ih scanning
      visible
    rw [scanTree_closer closes, if_pos opens]
    have next : Scanning file source (innermost :: outer) before (loc.past [char]) rest :=
      scanning.past
    obtain ⟨⟨mark, left⟩, marks⟩ := List.forall_mem_cons.mp scanning.marks
    have group : (Tree.group bracket before.reverse).Stands file source := by
      refine Tree.stands_group.mpr ⟨⟨_, mark⟩, ?_⟩
      intro tree member
      exact scanning.trees tree (List.mem_reverse.mp member)
    obtain ⟨ahead, whole, here, few⟩ := next.here
    have fewer := Nat.le_of_succ_le few
    exact ih ⟨⟨ahead, whole, here, fewer⟩, List.forall_mem_cons.mpr ⟨group, left⟩, marks⟩
  case otherCloser =>
    intro before leading loc char rest delimiter closes _ innermost outer ne scanning visible
    rw [scanTree_closer closes, if_neg ne]
    exact ⟨rest, scanning.stands (visible char rfl)⟩
  case token =>
    intro opened before leading loc char rest _ _ kind further token lexeme tree ih scanning visible
    rw [scanTree_token token]
    have here := scanning.stands (visible char rfl)
    have split : char :: rest = lexeme ++ rest.drop further := by
      simp [lexeme]
    rw [split] at scanning
    have next := scanning.past
    refine ih ⟨next.here, List.forall_mem_cons.mpr ⟨?_, scanning.trees⟩, scanning.marks⟩
    exact List.forall_mem_singleton.mpr ⟨char, _, here⟩
  case noToken =>
    intro opened before leading loc char rest noCloser noOpener none scanning visible
    rw [scanTree_noToken noOpener noCloser none]
    exact ⟨rest, scanning.stands (visible char rfl), none⟩

/-- What the scan of a whole source ends with stands in it. -/
theorem scan_stands_of_start (source file : String) :
    (scan [] [] (.start file) source.toList).Stands file source.toList :=
  scan_stands file source.toList [] [] (.start file) source.toList
    ⟨⟨[], rfl, rfl, Nat.le_refl 0⟩, by simp, by simp⟩

/-- The trees of a fragment that was read stand in its source. -/
theorem stands_visible_of_read {source file : String} {fragment : Fragment}
    (done : read source file = .ok fragment) :
    ∀ tree ∈ fragment.children, tree.Stands file source.toList := by
  have stands := scan_stands_of_start source file
  rwa [(scan_of_read done).1] at stands

/-! The faults belong to what the scan ends at. -/

theorem preserved_openers :
    Preserved fun opened _ _ => ∀ bracket ∈ opened, bracket.spot.isOpener where
  opener openers _ opens bracket member := by
    rcases List.mem_cons.mp member with rfl | member
    · exact Option.isSome_of_eq_some opens
    · exact openers bracket member
  closer openers _ _ _ bracket member := openers bracket (List.mem_cons_of_mem _ member)
  token openers _ _ := openers

theorem fault_of_noToken {spot : Spot} (noOpener : openerDelimiter? spot.char = none)
    (noCloser : closerDelimiter? spot.char = none) :
    spot.fault = if spot.char = '"' then .openString else .unknownCharacter spot.char := by
  simp [Spot.fault, Spot.isOpener, noOpener, noCloser]

theorem fault_of_closer {spot : Spot} (closes : (closerDelimiter? spot.char).isSome) :
    spot.fault = .strayCloser spot.char := by
  simp [Spot.fault, closes]

theorem fault_of_opener {spot : Spot} (opens : spot.isOpener) :
    spot.fault = .unclosed spot.char := by
  obtain ⟨delimiter, opener⟩ := Option.isSome_iff_exists.mp opens
  simp [Spot.fault, opens, closerDelimiter?_opener opener]

/-- What is wrong at a character is shown at its place and nowhere else. -/
theorem failure_eq_of_behind {file : String} {ahead : List Char} {spot : Spot}
    (here : spot.loc = .behind file ahead) :
    spot.failure =
      ⟨spot.fault, ⟨file, spot.loc.line, spot.loc.col, spot.loc.line, spot.loc.col⟩, none⟩ := by
  rw [Spot.failure, here]
  rfl

theorem not_bracket {char : Char} (noOpener : openerDelimiter? char = none)
    (noCloser : closerDelimiter? char = none) : char ∉ "()[]\x7b\x7d".toList := by
  intro bracket
  have which : char = '(' ∨ char = ')' ∨ char = '[' ∨ char = ']' ∨ char = '\x7b' ∨
      char = '\x7d' := by
    simpa using bracket
  rcases which with rfl | rfl | rfl | rfl | rfl | rfl <;> contradiction

/-- Where there is an opening bracket, nesting that is too deep is reported at the first. -/
theorem firstOpener_eq {file : String} {text : List Char}
    (some : 0 < text.countP (openerDelimiter? · |>.isSome)) :
    ∃ ahead char rest, text = ahead ++ char :: rest ∧ (openerDelimiter? char).isSome ∧
      (∀ other ∈ ahead, openerDelimiter? other = none) ∧
      firstOpener (.start file) text = .behind file ahead := by
  obtain ⟨char, member, opens⟩ := List.countP_pos_iff.mp some
  have any : (text.findIdx? (openerDelimiter? · |>.isSome)).isSome := by
    rw [List.findIdx?_isSome]
    exact List.any_eq_true.mpr ⟨char, member, opens⟩
  obtain ⟨index, found⟩ := Option.isSome_iff_exists.mp any
  obtain ⟨bound, opens, others⟩ := List.findIdx?_eq_some_iff_getElem.mp found
  refine ⟨text.take index, text[index], text.drop (index + 1), ?_, opens, ?_, ?_⟩
  · rw [List.getElem_cons_drop, List.take_append_drop]
  · intro other member
    obtain ⟨place, before, rfl⟩ := List.mem_take_iff_getElem.mp member
    simpa using others place (by omega)
  · rw [firstOpener, found]
    exact Loc.past_start ..

theorem isSome_openerDelimiter? (char : Char) :
    (openerDelimiter? char).isSome = "([\x7b".toList.contains char := by
  unfold openerDelimiter?
  split <;> simp_all

/-- Reading a source text and scanning it in one pass come to the same.  What cannot be read is
refused at the character that the scan ends at: where no token begins, at a closing bracket that
does not match, or at the innermost bracket that is still open.  Nesting that is too deep takes more
brackets than may be open, and is shown at the first. -/
theorem read_agrees_with_scan (source file : String) :
    match scan [] [] (.start file) source.toList with
    | .complete trees trailing =>
        read source file =
          .ok ⟨{ delimiter := .invisible, loc := .start file, closeLeading := trailing }, trees⟩
    | .noToken spot => ∃ ahead rest fault,
        source.toList = ahead ++ spot.char :: rest ∧ spot.loc = .behind file ahead ∧
          Text.isBlank spot.char = false ∧ spot.char ∉ "()[]\x7b\x7d".toList ∧
          (∀ kind further, Lexeme.first (spot.char :: rest) ≠ some (kind, further + 1)) ∧
        read source file = .error
          ⟨fault, ⟨file, spot.loc.line, spot.loc.col, spot.loc.line, spot.loc.col⟩, none⟩ ∧
          fault = (if spot.char = '"' then .openString else .unknownCharacter spot.char) ∧
          fault.code = .invalidCharacter
    | .stray closer => ∃ ahead rest fault,
        source.toList = ahead ++ closer.char :: rest ∧ closer.loc = .behind file ahead ∧
          closer.char ∈ ")]\x7d".toList ∧
        read source file = .error
          ⟨fault, ⟨file, closer.loc.line, closer.loc.col, closer.loc.line, closer.loc.col⟩, none⟩ ∧
          fault = .strayCloser closer.char ∧ fault.code = .unbalancedDelimiter
    | .unclosed opener => ∃ ahead rest fault,
        source.toList = ahead ++ opener.char :: rest ∧ opener.loc = .behind file ahead ∧
          opener.char ∈ "([\x7b".toList ∧
        read source file = .error
          ⟨fault, ⟨file, opener.loc.line, opener.loc.col, opener.loc.line, opener.loc.col⟩, none⟩ ∧
          fault = .unclosed opener.char ∧ fault.code = .unbalancedDelimiter
    | .tooDeep => ∃ ahead opener rest, ∃ place : Loc,
        source.toList = ahead ++ opener :: rest ∧ place = .behind file ahead ∧
          opener ∈ "([\x7b".toList ∧ (∀ char ∈ ahead, char ∉ "([\x7b".toList) ∧
          Grammar.maxNesting < source.toList.countP ("([\x7b".toList.contains ·) ∧
        read source file = .error
          ⟨.bracketsTooDeep, ⟨file, place.line, place.col, place.line, place.col⟩, none⟩ := by
  have reached := preserved_openers.reached [] [] (.start file) source.toList (by simp)
  have stands := scan_stands_of_start source file
  rw [read_eq]
  generalize scan [] [] (.start file) source.toList = scanned at reached stands
  match scanned with
  | .complete trees trailing => rfl
  | .noToken spot =>
      obtain ⟨noOpener, noCloser⟩ := reached
      obtain ⟨rest, ⟨⟨ahead, whole, here⟩, visible⟩, none⟩ := stands
      refine ⟨ahead, rest, spot.fault, whole, here, visible, ?_, none,
        congrArg _ (failure_eq_of_behind here), fault_of_noToken noOpener noCloser, ?_⟩
      · exact not_bracket noOpener noCloser
      · rw [fault_of_noToken noOpener noCloser]
        split <;> rfl
  | .stray closer =>
      obtain ⟨delimiter, closes⟩ := Option.isSome_iff_exists.mp reached
      obtain ⟨rest, ⟨ahead, whole, here⟩, -⟩ := stands
      refine ⟨ahead, rest, closer.fault, whole, here, ?_,
        congrArg _ (failure_eq_of_behind here), fault_of_closer reached, ?_⟩
      · simpa [or_comm] using char_of_closer closes
      · rw [fault_of_closer reached]
        rfl
  | .unclosed opener =>
      obtain ⟨innermost, outer, before, text, openers, rfl⟩ := reached
      obtain ⟨rest, ⟨ahead, whole, here⟩, -⟩ := stands
      have isOpener := openers innermost (List.mem_cons_self ..)
      obtain ⟨delimiter, opens⟩ := Option.isSome_iff_exists.mp isOpener
      refine ⟨ahead, rest, innermost.spot.fault, whole, here, ?_,
        congrArg _ (failure_eq_of_behind here), fault_of_opener isOpener, ?_⟩
      · simpa [or_comm] using char_of_opener opens
      · rw [fault_of_opener isOpener]
        rfl
  | .tooDeep =>
      have many : Grammar.maxNesting < source.toList.countP (openerDelimiter? · |>.isSome) := stands
      obtain ⟨ahead, opener, rest, whole, opens, others, here⟩ :=
        firstOpener_eq (Nat.zero_lt_of_lt many)
      simp only [isSome_openerDelimiter?] at many opens
      refine ⟨ahead, opener, rest, _, whole, rfl, by simpa using opens, ?_, many, ?_⟩
      · intro char member bracket
        have opens := (isSome_openerDelimiter? char).trans (List.contains_iff_mem.mpr bracket)
        rw [others char member] at opens
        contradiction
      · rw [Scanned.outcome, here]
        rfl

end Fragment

end Headfirst
