import Headfirst.Fragment.Source
import Headfirst.Proofs.Repeats
import Headfirst.Proofs.Spots
import Headfirst.Proofs.Steps

namespace Headfirst

open Headfirst.Tree

/-! Where a source is to blame for a failure.

Whatever stops a run, a malformed occurrence or a bound, is shown at a tree.  A tree whose places
are known stands where a token or a bracket of the source does, or is the source as a whole; and
a source that cannot be read fails at one of its characters.  So every failure starts at the start
of the source or at a character that is no white space. -/

/-- A failure shown at a tree whose places are among the given ones. -/
def Failure.Blames (places : List Loc) (failure : Failure) : Prop :=
  ∃ tree : Tree, tree.IsPlaced places ∧ failure.span = tree.span

/-- Work that leaves trees whose places are known, or stops at one of them. -/
def Outcome.Blames {α : Type} (places : List Loc) (left : α → List Tree) : Outcome α → Prop
  | .done value _ => ∀ tree ∈ left value, tree.IsPlaced places
  | .stopped failure _ => failure.Blames places

theorem Outcome.Blames.bind {α β : Type} {places : List Loc} {left : α → List Tree}
    {final : β → List Tree} {outcome : Outcome α} {next : α → Progress → Outcome β}
    (first : outcome.Blames places left)
    (second : ∀ value progress, outcome = .done value progress →
      (∀ tree ∈ left value, tree.IsPlaced places) → (next value progress).Blames places final) :
    (outcome.bind next).Blames places final := by
  cases outcome with
  | done value progress => exact second value progress rfl first
  | stopped failure progress => exact first

namespace Fronting

variable {settings : Settings} {places : List Loc}

theorem siblings_blames {floor : Nat} {before rest : List Tree} {progress : Progress}
    (behind : ∀ tree ∈ before, tree.IsPlaced places)
    (ahead : ∀ tree ∈ rest, tree.IsPlaced places) :
    (siblings settings floor before rest progress).Blames places id := by
  fun_induction siblings settings floor before rest progress with
  | case1 floor before progress => simpa [Outcome.Blames] using behind
  | case2 floor before tree after progress isMarker site reach recorded failure resolved tolerant ih =>
      rw [List.forall_mem_cons] at ahead
      exact ih (List.forall_mem_cons.mpr ⟨ahead.1, behind⟩) ahead.2
  | case3 floor before tree after progress isMarker site reach recorded failure resolved strict =>
      refine Site.exists_culprit resolved ?_
      rw [Site.trees, List.forall_mem_append]
      exact ⟨by simpa using behind, ahead⟩
  | case4 floor before tree after progress isMarker site reach recorded occurrence resolved counted beyond =>
      exact ⟨tree, ahead tree List.mem_cons_self, rfl⟩
  | case5 floor before tree after progress isMarker site reach recorded occurrence resolved counted within replacement ih =>
      have placed : ∀ tree ∈ site.trees, tree.IsPlaced places := by
        rw [Site.trees, List.forall_mem_append]
        exact ⟨by simpa using behind, ahead⟩
      have next := Site.isPlaced_spliced resolved placed settings.parenthesize
      rw [Site.spliced, List.forall_mem_append, List.forall_mem_cons] at next
      obtain ⟨left, made, right⟩ := next
      exact ih (List.forall_mem_cons.mpr ⟨made, by simpa using left⟩) right
  | case6 floor before tree after progress noMarker ih =>
      rw [List.forall_mem_cons] at ahead
      exact ih (List.forall_mem_cons.mpr ⟨ahead.1, behind⟩) ahead.2

theorem pass_blames (settings : Settings) (places : List Loc) :
    (∀ trees, (∀ tree ∈ trees, tree.IsPlaced places) → ∀ progress,
      (sequence settings trees progress).Blames places id) ∧
    ∀ trees, (∀ tree ∈ trees, tree.IsPlaced places) → ∀ progress,
      (below settings trees progress).Blames places id := by
  apply pass_induction
  case scan =>
      intro trees ih placed progress
      rw [sequence_eq]
      refine (siblings_blames (by simp) placed).bind ?_
      intro scanned between done left
      exact ih scanned (sizeAll_siblings_start done) left between
  case nil =>
      intro placed progress
      rw [below_nil]
      exact placed
  case leaf =>
      intro token trees ih placed progress
      rw [List.forall_mem_cons] at placed
      rw [below_leaf]
      refine (ih placed.2 progress).bind ?_
      intro result after done right
      exact List.forall_mem_cons.mpr ⟨placed.1, right⟩
  case group =>
      intro bracket children trees ihInside ihRight placed progress
      rw [List.forall_mem_cons, isPlaced_group] at placed
      obtain ⟨⟨here, inside⟩, behind⟩ := placed
      rw [below_group]
      refine (ihInside inside progress).bind ?_
      intro inner between done within
      refine (ihRight behind between).bind ?_
      intro result after finished right
      exact List.forall_mem_cons.mpr ⟨isPlaced_group.mpr ⟨here, within⟩, right⟩

/-- Passes over trees whose places are known stop at one of them, or at what the span given to them
is the span of. -/
theorem fixpoint_blames {whole : Tree} (known : whole.IsPlaced places) (pass markers : Nat)
    (trees : List Tree) (progress : Progress) (placed : ∀ tree ∈ trees, tree.IsPlaced places) :
    (fixpoint settings whole.span pass markers trees progress).Blames places Prod.fst := by
  fun_induction fixpoint settings whole.span pass markers trees progress with
  | case1 pass markers trees progress spent => exact ⟨whole, known, rfl⟩
  | case2 pass markers trees progress room failure after stopped =>
      have blames := (pass_blames settings places).1 trees placed progress
      rwa [stopped] at blames
  | case3 pass markers trees progress room result after done splices recorded none =>
      have left := (pass_blames settings places).1 trees placed progress
      rwa [done] at left
  | case4 pass markers trees progress room result after done splices recorded remaining some drifted =>
      exact ⟨whole, known, rfl⟩
  | case5 pass markers trees progress room result after done splices recorded remaining some exact none =>
      have left := (pass_blames settings places).1 trees placed progress
      rwa [done] at left
  | case6 pass markers trees progress room result between done splices recorded remaining some exact more ih =>
      have left := (pass_blames settings places).1 trees placed progress
      rw [done] at left
      exact ih left

end Fronting

namespace Fragment

variable {settings : Settings} {macroName : String} {places : List Loc} {fragment : Fragment}
  {failure : Failure}

/-- A run over trees whose places are known fails at one of them, or at the fragment as a whole. -/
theorem front_blames (placed : fragment.tree.IsPlaced places)
    (failed : (fragment.front settings).result = .error failure) : failure.Blames places := by
  have inside : ∀ tree ∈ fragment.children, tree.IsPlaced places := placed.children
  by_cases deep : Fronting.maxDepth < fragment.tree.depth
  · rw [front_tooDeep deep] at failed
    cases failed
    exact ⟨fragment.tree, placed, rfl⟩
  · have shallow := Nat.not_lt.mp deep
    have blames : (Fronting.fixpoint settings fragment.tree.span 0 (markersAll fragment.children)
        fragment.children fragment.begun).Blames places Prod.fst :=
      Fronting.fixpoint_blames placed 0 _ _ _ inside
    cases loop : Fronting.fixpoint settings fragment.tree.span 0 (markersAll fragment.children)
        fragment.children fragment.begun with
    | stopped stop after =>
        rw [loop] at blames
        rw [front_of_stopped shallow loop] at failed
        cases failed
        exact blames
    | done value after =>
        rw [front_of_done shallow loop] at failed
        contradiction

theorem frontWithin_blames {room : Nat} (placed : fragment.tree.IsPlaced places)
    (failed : (fragment.frontWithin room settings).result = .error failure) :
    failure.Blames places := by
  by_cases deep : room / Stack.copying < fragment.tree.depth
  · simp only [frontWithin, if_pos deep] at failed
    cases failed
    exact ⟨fragment.tree, placed, rfl⟩
  · simp only [frontWithin, if_neg deep] at failed
    exact front_blames placed failed

end Fragment

namespace Expansion

variable {settings : Settings} {macroName : String} {places : List Loc} {trees : List Tree}
  {expansion : Expansion}

/-- An expansion that knows the places of what it leaves, and fails at one of them. -/
structure Blames (places : List Loc) (expansion : Expansion) : Prop where
  placed : ∀ tree ∈ expansion.trees, tree.IsPlaced places
  blamed : ∀ failure, expansion.halt = some (.refused failure) → failure.Blames places

theorem Blames.after (blames : expansion.Blames places)
    (placed : ∀ tree ∈ trees, tree.IsPlaced places) : (after trees expansion).Blames places :=
  ⟨List.forall_mem_append.mpr ⟨placed, blames.placed⟩, blames.blamed⟩

theorem Blames.stopped {failure : Failure} {tally : Tally}
    (placed : ∀ tree ∈ trees, tree.IsPlaced places) (blamed : failure.Blames places) :
    Blames places ⟨trees, some (.refused failure), tally⟩ :=
  ⟨placed, by rintro _ ⟨⟩; exact blamed⟩

/-- What halts an expansion halts the one around it. -/
theorem Blames.interrupt {halt : Halt Failure} {tally : Tally} (blames : expansion.Blames places)
    (halted : expansion.halt = some halt) (placed : ∀ tree ∈ trees, tree.IsPlaced places) :
    Blames places ⟨trees, some halt, tally⟩ :=
  ⟨placed, fun failure same => blames.blamed failure (halted.trans same)⟩

theorem Blames.enter {children : List Tree} (placed : ∀ tree ∈ children, tree.IsPlaced places)
    (blames : ∀ room tally, (expand settings macroName room children tally).Blames places)
    (room : Nat) (tally : Tally) :
    (enter settings macroName room children tally).Blames places := by
  cases room with
  | zero =>
      rw [Expansion.enter]
      exact ⟨placed, by simp⟩
  | succ room =>
      rw [Expansion.enter]
      exact blames room tally

theorem expand_blames (settings : Settings) (macroName : String) (trees : List Tree)
    (placed : ∀ tree ∈ trees, tree.IsPlaced places) : ∀ room tally,
    (expand settings macroName room trees tally).Blames places := by
  induction trees using Invocation.induction macroName with
  | nil =>
      intro room tally
      rw [expand_nil]
      exact ⟨placed, by simp⟩
  | token token rest none later =>
      intro room tally
      rw [List.forall_mem_cons] at placed
      rw [expand_token none]
      exact (later placed.2 room tally).after (List.forall_mem_singleton.mpr placed.1)
  | group bracket children rest within later =>
      intro room tally
      rw [List.forall_mem_cons, isPlaced_group] at placed
      obtain ⟨⟨here, inside⟩, behind⟩ := placed
      have inner := Blames.enter inside (within inside) room tally
      have whole := isPlaced_group.mpr ⟨here, inner.placed⟩
      rw [expand_group]
      simp only
      cases halted : (enter settings macroName room children tally).halt with
      | some halt => exact inner.interrupt halted (List.forall_mem_cons.mpr ⟨whole, behind⟩)
      | none => exact (later behind room _).after (List.forall_mem_singleton.mpr whole)
  | invocation invocation rest calls within later =>
      intro room tally
      rw [Invocation.trees, List.forall_mem_append] at placed
      obtain ⟨own, behind⟩ := placed
      simp only [List.forall_mem_cons, isPlaced_group] at own
      obtain ⟨name, bang, ⟨here, inside⟩, none⟩ := own
      have inner := Blames.enter inside (within inside) room tally
      rw [expand_call calls]
      generalize enter settings macroName room invocation.argument tally = expanded at inner
      have untouched : ∀ tree ∈ { invocation with argument := expanded.trees }.trees ++ rest,
          tree.IsPlaced places := by
        rw [Invocation.trees, List.forall_mem_append]
        simp only [List.forall_mem_cons, isPlaced_group]
        exact ⟨⟨name, bang, ⟨here, inner.placed⟩, none⟩, behind⟩
      have argument : (argument invocation.bracket expanded.trees).tree.IsPlaced places :=
        isPlaced_group.mpr ⟨here, inner.placed⟩
      simp only
      cases halted : expanded.halt with
      | some halt => exact inner.interrupt halted untouched
      | none =>
          simp only
          cases ran : ((Expansion.argument invocation.bracket expanded.trees).frontWithin room
              settings).result with
          | error failure => exact .stopped untouched (Fragment.frontWithin_blames argument ran)
          | ok fragment =>
              rw [Fragment.frontWithin_of_ok ran] at ran
              have result := (Fragment.front_isPlaced inner.placed).2 fragment ran
              refine (later behind room _).after (List.forall_mem_singleton.mpr ?_)
              exact isPlaced_group.mpr ⟨name.loc, result⟩

end Expansion

/-- A failure that starts behind `ahead` in the source of a file: at a character that is no white
space, or at the start of the source. -/
structure Failure.Starts (file : String) (source ahead : List Char) (failure : Failure) : Prop where
  sameFile : failure.span.file = file
  line : failure.span.line = (Loc.behind file ahead).line
  column : failure.span.column = (Loc.behind file ahead).col
  within : (∃ char rest, source = ahead ++ char :: rest ∧ Text.isBlank char = false) ∨ ahead = []

theorem Spot.Stands.starts {file : String} {source rest : List Char} {spot : Spot}
    (stands : spot.Stands file source rest) {fault : Fault} {marker : Option Span} :
    ∃ ahead, (⟨fault, .point spot.loc, marker⟩ : Failure).Starts file source ahead := by
  obtain ⟨⟨ahead, whole, here⟩, visible⟩ := stands
  rw [here]
  exact ⟨ahead, rfl, rfl, rfl, .inl ⟨_, rest, whole, visible⟩⟩

namespace Fragment

variable {settings : Settings} {macroName source file : String} {fragment : Fragment}
  {failure : Failure} {places : List Loc}

/-- The bracket at which nesting that is too deep is reported. -/
theorem firstOpener_starts
    (some : 0 < source.toList.countP (openerDelimiter? · |>.isSome)) :
    ∃ ahead, (⟨.bracketsTooDeep, .point (firstOpener (.start file) source.toList), none⟩ :
      Failure).Starts file source.toList ahead := by
  obtain ⟨ahead, char, rest, whole, opens, -, here⟩ := firstOpener_eq some
  obtain ⟨delimiter, opens⟩ := Option.isSome_iff_exists.mp opens
  have visible : Text.isBlank char = false := by
    rcases char_of_opener opens with rfl | rfl | rfl <;> decide
  rw [here]
  exact ⟨ahead, rfl, rfl, rfl, .inl ⟨char, rest, whole, visible⟩⟩

/-- A source that cannot be read is refused at one of its characters. -/
theorem read_starts (failed : read source file = .error failure) :
    ∃ ahead, failure.Starts file source.toList ahead := by
  have stands := scan_stands_of_start source file
  rw [read_eq] at failed
  cases scanned : scan [] [] (.start file) source.toList with
  | complete trees trailing =>
      rw [scanned] at failed
      contradiction
  | noToken spot =>
      rw [scanned] at failed stands
      cases failed
      obtain ⟨rest, stands, -⟩ := stands
      exact stands.starts
  | stray spot | unclosed spot =>
      rw [scanned] at failed stands
      cases failed
      obtain ⟨rest, stands⟩ := stands
      exact stands.starts
  | tooDeep =>
      rw [scanned] at failed stands
      cases failed
      exact firstOpener_starts (Nat.zero_lt_of_lt stands)

/-- What is blamed among the trees of a fragment that was read is in its source. -/
theorem starts_of_blames (lexed : read source file = .ok fragment)
    (blames : failure.Blames (.start file :: locsAll fragment.children)) :
    ∃ ahead, failure.Starts file source.toList ahead := by
  obtain ⟨tree, known, span⟩ := blames
  obtain ⟨sameFile, line, column⟩ := span_of_isPlaced known
  rw [← span] at sameFile line column
  rcases List.mem_cons.mp known.loc.1 with whole | member
  · rw [whole] at sameFile line column
    exact ⟨[], sameFile, line, column, .inr rfl⟩
  · obtain ⟨piece, among, within⟩ := mem_locsAll.mp member
    obtain ⟨char, rest, ⟨ahead, split, here⟩, visible⟩ :=
      stands_visible_of_read lexed piece among _ within
    change tree.loc = _ at here
    rw [here] at sameFile line column
    exact ⟨ahead, sameFile, line, column, .inl ⟨char, rest, split, visible⟩⟩

theorem isPlaced_of_read (lexed : read source file = .ok fragment) :
    fragment.tree.IsPlaced (.start file :: locsAll fragment.children) := by
  have root : fragment.bracket.loc = .start file := by rw [(scan_of_read lexed).2]
  refine isPlaced_group.mpr ⟨?_, ?_⟩
  · rw [root]
    exact ⟨List.mem_cons_self, Int.one_pos⟩
  · have inside := (inOrder_of_read lexed).2
    rw [forall_isPlaced_iff] at inside ⊢
    intro loc member
    exact ⟨List.mem_cons_of_mem _ member, (inside loc member).2⟩

theorem expand_blames (placed : fragment.tree.IsPlaced places)
    (failed : (fragment.expand settings macroName).2.1 = some (.refused failure)) :
    failure.Blames places := by
  have inside : ∀ tree ∈ fragment.children, tree.IsPlaced places := placed.children
  have blames := Expansion.expand_blames settings (settings.called macroName) fragment.children
    inside Stack.frames {}
  rw [halt_expand] at failed
  exact blames.blamed failure failed

end Fragment

end Headfirst
