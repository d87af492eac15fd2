import Headfirst.Proofs.Faces
import Headfirst.Proofs.Splice

namespace Headfirst

open Headfirst.Tree

/-! The working trees of two runs, one of which parenthesizes operands, side by side.

Where one run has put an operand in parentheses, the other has put it in an invisible group,
or left the replacement it consists of as it is.  Such a pair looks different to a scan.  It
always stands behind the last token of a head, and between it and the next `::` there is a
token that ends an operand; so no scan comes to look at it. -/

/-- A tree of the run that parenthesizes, and the tree that the other run has in its place. -/
abbrev Pair := Tree × Tree

namespace Pair

def IsAlike (pair : Pair) : Prop :=
  pair.1.face = pair.2.face

/-- Whether an operand that ends in front of here, where `before` lies nearest first, has no
pair in it that looks different. -/
def Clear : (before : List Pair) → Prop
  | [] => True
  | pair :: before =>
      Operand.isBoundary pair.1 = true ∨ (pair.IsAlike ∧ Clear before)

/-- What a pair needs of those before it, nearest first. -/
structure Placed (before : List Pair) (pair : Pair) : Prop where
  anchored : pair.IsAlike ∨ before.head?.any (·.1.endsHead) = true
  clear : pair.1.isPunct "::" = true → Clear before

def Ordered : (before : List Pair) → List Pair → Prop
  | _, [] => True
  | before, pair :: pairs => Placed before pair ∧ Ordered (pair :: before) pairs

end Pair

open Pair

def Bracket.bare (bracket : Bracket) : Bracket :=
  { bracket with leading := "" }

theorem Bracket.delimiter_of_bare {left right : Bracket} (same : left.bare = right.bare) :
    left.delimiter = right.delimiter := by
  have delimiters := congrArg Bracket.delimiter same
  exact delimiters

/-- A pair of trees that are the same but for parentheses around operands. -/
inductive Twin : Pair → Prop where
  | leaf {left right : Token} (same : left.bare = right.bare) : Twin (.leaf left, .leaf right)
  /-- The same group.  Only where it is invisible can it hold parentheses of its own. -/
  | group {left right : Bracket} {pairs : List Pair} (same : left.bare = right.bare)
      (twins : ∀ pair ∈ pairs, Twin pair) (ordered : Ordered [] pairs)
      (alike : left.delimiter ≠ .invisible → ∀ pair ∈ pairs, pair.IsAlike) :
      Twin (.group left (pairs.map Prod.fst), .group right (pairs.map Prod.snd))
  /-- An operand of several trees. -/
  | wrapped {left right : Bracket} {pairs : List Pair} (paren : left.delimiter = .paren)
      (invisible : right.delimiter = .invisible) (twins : ∀ pair ∈ pairs, Twin pair)
      (ordered : Ordered [] pairs) :
      Twin (.group left (pairs.map Prod.fst), .group right (pairs.map Prod.snd))
  /-- An operand that is an earlier replacement. -/
  | kept {left inner right : Bracket} {pairs : List Pair} (paren : left.delimiter = .paren)
      (inside : inner.delimiter = .invisible) (invisible : right.delimiter = .invisible)
      (twins : ∀ pair ∈ pairs, Twin pair) (ordered : Ordered [] pairs) :
      Twin (.group left [.group inner (pairs.map Prod.fst)], .group right (pairs.map Prod.snd))

namespace Twin

variable {pair : Pair}

theorem anyToken (twin : Twin pair) {test : Token → Bool}
    (bare : ∀ token : Token, test token.bare = test token) :
    pair.1.anyToken test = pair.2.anyToken test := by
  cases twin with
  | leaf same =>
      rename_i left right
      exact (bare left).symm.trans (same ▸ bare right)
  | group | wrapped | kept => rfl

theorem isPunct (twin : Twin pair) (text : String) : pair.1.isPunct text = pair.2.isPunct text :=
  twin.anyToken fun _ => rfl

theorem isPunctIn (twin : Twin pair) (texts : List String) :
    pair.1.isPunctIn texts = pair.2.isPunctIn texts :=
  twin.anyToken fun _ => rfl

theorem isKeyword (twin : Twin pair) (text : String) :
    pair.1.isKeyword text = pair.2.isKeyword text :=
  twin.anyToken fun _ => rfl

theorem isKeywordIn (twin : Twin pair) (texts : List String) :
    pair.1.isKeywordIn texts = pair.2.isKeywordIn texts :=
  twin.anyToken fun _ => rfl

theorem isAnyPunct (twin : Twin pair) : pair.1.isAnyPunct = pair.2.isAnyPunct :=
  twin.anyToken fun _ => rfl

theorem isAnyIdent (twin : Twin pair) : pair.1.isAnyIdent = pair.2.isAnyIdent :=
  twin.anyToken fun _ => rfl

theorem isLifetime (twin : Twin pair) : pair.1.isLifetime = pair.2.isLifetime :=
  twin.anyToken fun _ => rfl

theorem isBlock (twin : Twin pair) : Body.isBlock pair.1 = Body.isBlock pair.2 := by
  cases twin with
  | leaf same => rfl
  | group same =>
      exact congrArg (·.delimiter == .brace) same
  | wrapped paren invisible => simp only [Body.isBlock, Tree.isGroup, paren, invisible]; rfl
  | kept paren inside invisible => simp only [Body.isBlock, Tree.isGroup, paren, invisible]; rfl

theorem isBoundary (twin : Twin pair) :
    Operand.isBoundary pair.1 = Operand.isBoundary pair.2 := by
  simp only [Operand.isBoundary, twin.isPunctIn, twin.isKeywordIn]

theorem continuesPath (twin : Twin pair) :
    Marker.continuesPath pair.1 = Marker.continuesPath pair.2 := by
  have isBrace : pair.1.isGroup .brace = pair.2.isGroup .brace := twin.isBlock
  simp only [Marker.continuesPath, twin.isAnyIdent, twin.isPunctIn, isBrace]

/-- A token looks the same in both runs. -/
theorem isAlike_of_anyToken (twin : Twin pair) {test : Token → Bool}
    (token : pair.1.anyToken test = true) : pair.IsAlike := by
  cases twin with
  | leaf same => exact congrArg Tree.leaf same
  | group | wrapped | kept => contradiction

theorem test (twin : Twin pair) {after : List Pair} (twins : ∀ next ∈ after, Twin next) :
    Marker.test pair.1 (after.map Prod.fst).head? =
      Marker.test pair.2 (after.map Prod.snd).head? := by
  cases after with
  | nil => simp [Marker.test, twin.isPunct]
  | cons next after =>
      simp [Marker.test, twin.isPunct, (twins next List.mem_cons_self).continuesPath]

end Twin

namespace Pair

variable {pair : Pair} {before pairs : List Pair}

theorem IsAlike.isGroup (alike : pair.IsAlike) (delimiter : Delimiter) :
    pair.1.isGroup delimiter = pair.2.isGroup delimiter := by
  rw [← isGroup_face, ← @isGroup_face pair.2, alike]

theorem IsAlike.span (alike : pair.IsAlike) : pair.1.span = pair.2.span := by
  rw [← span_face, ← @span_face pair.2, alike]

theorem map_face (alike : ∀ pair ∈ pairs, pair.IsAlike) :
    (pairs.map Prod.fst).map face = (pairs.map Prod.snd).map face := by
  rw [List.map_map, List.map_map]
  exact List.map_congr_left alike

theorem clear_of_alike (alike : ∀ pair ∈ before, pair.IsAlike) : Clear before := by
  induction before with
  | nil => trivial
  | cons pair before ih =>
      rw [List.forall_mem_cons] at alike
      exact .inr ⟨alike.1, ih alike.2⟩

theorem ordered_of_alike (alikeBefore : ∀ pair ∈ before, pair.IsAlike)
    (alike : ∀ pair ∈ pairs, pair.IsAlike) : Ordered before pairs := by
  induction pairs generalizing before with
  | nil => trivial
  | cons pair pairs ih =>
      rw [List.forall_mem_cons] at alike
      refine ⟨⟨.inl alike.1, fun _ => clear_of_alike alikeBefore⟩, ih ?_ alike.2⟩
      exact List.forall_mem_cons.mpr ⟨alike.1, alikeBefore⟩

theorem ordered_append {left right : List Pair} :
    Ordered before (left ++ right) ↔
      Ordered before left ∧ Ordered (left.reverse ++ before) right := by
  induction left generalizing before with
  | nil => simp [Ordered]
  | cons pair left ih => simp [Ordered, ih, and_assoc]

end Pair

/-! The operand in front of a marker. -/

namespace Operand

variable {before : List Pair}

theorem skipLabel_twin (twins : ∀ pair ∈ before, Twin pair) :
    ∃ kept : List Pair, skipLabel (before.map Prod.fst) = kept.map Prod.fst ∧
      skipLabel (before.map Prod.snd) = kept.map Prod.snd ∧ ∀ pair ∈ kept, Twin pair := by
  cases before with
  | nil => exact ⟨[], rfl, rfl, twins⟩
  | cons colon before =>
      cases before with
      | nil => exact ⟨[colon], rfl, rfl, twins⟩
      | cons lifetime before =>
          have inner := twins
          rw [List.forall_mem_cons, List.forall_mem_cons] at inner
          rw [List.map_cons, List.map_cons, List.map_cons, List.map_cons, skipLabel, skipLabel,
            inner.1.isPunct, inner.2.1.isLifetime]
          by_cases labelled : (colon.2.isPunct ":" && lifetime.2.isLifetime) = true
          · rw [if_pos labelled, if_pos labelled]
            exact ⟨before, rfl, rfl, inner.2.2⟩
          · rw [if_neg labelled, if_neg labelled]
            exact ⟨colon :: lifetime :: before, rfl, rfl, twins⟩

theorem startsStatement_twin (twins : ∀ pair ∈ before, Twin pair) :
    startsStatement (before.map Prod.fst) = startsStatement (before.map Prod.snd) := by
  obtain ⟨kept, left, right, twins⟩ := skipLabel_twin twins
  rw [startsStatement, startsStatement, left, right]
  cases kept with
  | nil => rfl
  | cons previous kept =>
      have twin := twins previous List.mem_cons_self
      simp only [List.map_cons, twin.isPunct]
      exact congrArg (_ || ·) twin.isBlock

theorem inBlockStatement_twin (twins : ∀ pair ∈ before, Twin pair) :
    inBlockStatement (before.map Prod.fst) = inBlockStatement (before.map Prod.snd) := by
  induction before with
  | nil => rfl
  | cons pair before ih =>
      rw [List.forall_mem_cons] at twins
      rw [List.map_cons, List.map_cons, inBlockStatement, inBlockStatement, isTerminator,
        isTerminator, twins.1.isPunctIn, twins.1.isKeywordIn, startsStatement_twin twins.2,
        ih twins.2]

theorem closesBlockStatement_twin {pair next : Pair} (twins : ∀ pair ∈ before, Twin pair)
    (twin : Twin pair) (twinNext : Twin next) :
    closesBlockStatement (before.map Prod.fst) pair.1 (some next.1) =
      closesBlockStatement (before.map Prod.snd) pair.2 (some next.2) := by
  have isBrace : pair.1.isGroup .brace = pair.2.isGroup .brace := twin.isBlock
  simp only [closesBlockStatement, isBrace, Option.any_some, twinNext.isAnyPunct,
    inBlockStatement_twin twins]

theorem extent_twin (reach : Nat) {next : Pair} (twins : ∀ pair ∈ before, Twin pair)
    (twinNext : Twin next) (clear : Clear before) :
    extent reach (before.map Prod.fst) next.1 = extent reach (before.map Prod.snd) next.2 := by
  induction before generalizing reach next with
  | nil => cases reach <;> rfl
  | cons pair before ih =>
      cases reach with
      | zero => rfl
      | succ reach =>
          rw [List.forall_mem_cons] at twins
          obtain ⟨twin, others⟩ := twins
          rw [List.map_cons, List.map_cons, extent, extent, ← twin.isBoundary,
            closesBlockStatement_twin others twin twinNext]
          rcases clear with boundary | ⟨alike, clear⟩
          · simp [boundary]
          · rw [isInvisible, alike.isGroup, ih reach others twin clear]

theorem length_twin (reach : Nat) (twins : ∀ pair ∈ before, Twin pair) (clear : Clear before) :
    length reach (before.map Prod.fst) = length reach (before.map Prod.snd) := by
  cases reach with
  | zero => rfl
  | succ reach =>
      cases before with
      | nil => rfl
      | cons pair before =>
          rw [List.forall_mem_cons] at twins
          obtain ⟨twin, others⟩ := twins
          rw [List.map_cons, List.map_cons, length, length, ← twin.isBoundary]
          rcases clear with boundary | ⟨alike, clear⟩
          · simp [boundary]
          · rw [isInvisible, alike.isGroup, extent_twin reach others twin clear]

/-- No tree of an operand ends an operand. -/
theorem goesOn_extent (reach : Nat) (before : List Tree) (next : Tree) :
    ∀ tree ∈ before.take (extent reach before next), isBoundary tree = false := by
  fun_induction extent reach before next with
  | case1 => simp
  | case2 => simp
  | case3 => simp
  | case4 reach tree before next goesOn invisible => simp_all
  | case5 reach tree before next goesOn visible ih => simp_all

theorem goesOn_length (reach : Nat) (before : List Tree) :
    ∀ tree ∈ before.take (length reach before), isBoundary tree = false := by
  unfold length
  split
  · simp
  · simp
  · rename_i reach tree before
    have farther := goesOn_extent reach before tree
    split
    · simp
    · split <;> simp_all

theorem alike_of_clear {count : Nat} (clear : Clear before)
    (goesOn : ∀ tree ∈ (before.map Prod.fst).take count, isBoundary tree = false) :
    (∀ pair ∈ before.take count, pair.IsAlike) ∧ Clear (before.drop count) := by
  induction count generalizing before with
  | zero => exact ⟨by simp, clear⟩
  | succ count ih =>
      cases before with
      | nil => exact ⟨by simp, trivial⟩
      | cons pair before =>
          rw [List.map_cons, List.take_succ_cons, List.forall_mem_cons] at goesOn
          rcases clear with boundary | ⟨alike, clear⟩
          · rw [goesOn.1] at boundary
            contradiction
          · obtain ⟨others, farther⟩ := ih clear goesOn.2
            rw [List.take_succ_cons, List.forall_mem_cons]
            exact ⟨⟨alike, others⟩, farther⟩

end Operand

end Headfirst
