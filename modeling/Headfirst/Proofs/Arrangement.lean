import Headfirst.Proofs.Division

namespace Headfirst

open Headfirst.Tree Headfirst.Pair

/-! Rows of pairs that are rearranged: other trivia, other trees in front. -/

namespace Tree

theorem eq_withLeading_of_bare {tree other : Tree} (same : tree.bare = other.bare) :
    tree = other.withLeading tree.leading := by
  cases tree with
  | leaf token =>
      cases other with
      | group bracket children => contradiction
      | leaf second =>
          cases token
          cases second
          simp_all [bare, withLeading, leading]
  | group bracket children =>
      cases other with
      | leaf token => contradiction
      | group second others =>
          cases bracket
          cases second
          simp_all [bare, withLeading, leading]

theorem isBoundary_face (tree : Tree) :
    Operand.isBoundary tree.face = Operand.isBoundary tree := by
  have punct (texts : List String) : tree.face.isPunctIn texts = tree.isPunctIn texts :=
    anyToken_face fun _ => rfl
  have keyword (texts : List String) : tree.face.isKeywordIn texts = tree.isKeywordIn texts :=
    anyToken_face fun _ => rfl
  simp only [Operand.isBoundary, punct, keyword]

theorem endsHead_face (tree : Tree) : tree.face.endsHead = tree.endsHead :=
  anyToken_face fun _ => rfl

@[simp] theorem face_face (tree : Tree) : tree.face.face = tree.face := by
  cases tree <;> rfl

end Tree

theorem Twin.withLeading {pair : Pair} (twin : Twin pair) (left right : String) :
    Twin (pair.1.withLeading left, pair.2.withLeading right) := by
  cases twin with
  | leaf same => exact .leaf same
  | group same twins ordered alike => exact .group same twins ordered alike
  | wrapped paren invisible twins ordered => exact .wrapped paren invisible twins ordered
  | kept paren inside invisible twins ordered => exact .kept paren inside invisible twins ordered

namespace Pair

variable {before other pairs new : List Pair}

def faces (pair : Pair) : Pair :=
  (pair.1.face, pair.2.face)

def bare (pair : Pair) : Pair :=
  (pair.1.bare, pair.2.bare)

theorem faces_of_bare (same : new.map bare = pairs.map bare) :
    new.map faces = pairs.map faces := by
  have shells := congrArg (List.map fun pair : Pair => (pair.1.shell, pair.2.shell)) same
  rwa [List.map_map, List.map_map] at shells

theorem twins_of_bare (same : new.map bare = pairs.map bare) (twins : ∀ pair ∈ pairs, Twin pair) :
    ∀ pair ∈ new, Twin pair := by
  intro pair member
  have found : pair.bare ∈ pairs.map bare := by
    rw [← same]
    exact List.mem_map_of_mem member
  obtain ⟨old, memberOld, equal⟩ := List.mem_map.mp found
  have left : pair.1.bare = old.1.bare := (congrArg Prod.fst equal).symm
  have right : pair.2.bare = old.2.bare := (congrArg Prod.snd equal).symm
  have twin := (twins old memberOld).withLeading pair.1.leading pair.2.leading
  rwa [← eq_withLeading_of_bare left, ← eq_withLeading_of_bare right] at twin

/-- Sequences that are those of a row up to their trivia. -/
theorem exists_of_bare {left right : List Tree}
    (sameLeft : left.map Tree.bare = (pairs.map Prod.fst).map Tree.bare)
    (sameRight : right.map Tree.bare = (pairs.map Prod.snd).map Tree.bare) :
    ∃ new : List Pair, left = new.map Prod.fst ∧ right = new.map Prod.snd ∧
      new.map bare = pairs.map bare := by
  have lengthLeft := congrArg List.length sameLeft
  have lengthRight := congrArg List.length sameRight
  simp only [List.length_map] at lengthLeft lengthRight
  refine ⟨left.zip right, ?_, ?_, ?_⟩
  · rw [List.map_fst_zip (by omega)]
  · rw [List.map_snd_zip (by omega)]
  · have zipped : (left.zip right).map bare =
        (left.map Tree.bare).zip (right.map Tree.bare) := by
      rw [List.zip_map]
      rfl
    have whole : pairs = (pairs.map Prod.fst).zip (pairs.map Prod.snd) :=
      List.zip_of_prod rfl rfl
    rw [zipped, sameLeft, sameRight, List.zip_map, ← whole]
    rfl

theorem isAlike_faces {pair : Pair} : pair.faces.IsAlike ↔ pair.IsAlike := by
  simp [IsAlike, faces]

theorem alike_of_faces (same : new.map faces = pairs.map faces)
    (alike : ∀ pair ∈ pairs, pair.IsAlike) : ∀ pair ∈ new, pair.IsAlike := by
  intro pair member
  have found : pair.faces ∈ pairs.map faces := by
    rw [← same]
    exact List.mem_map_of_mem member
  obtain ⟨old, memberOld, equal⟩ := List.mem_map.mp found
  rw [← isAlike_faces, ← equal, isAlike_faces]
  exact alike old memberOld

theorem clear_faces : Clear (before.map faces) ↔ Clear before := by
  induction before with
  | nil => exact Iff.rfl
  | cons pair before ih =>
      have boundary : Operand.isBoundary pair.faces.1 = Operand.isBoundary pair.1 :=
        isBoundary_face pair.1
      rw [List.map_cons, Clear, Clear, ih, isAlike_faces, boundary]

theorem placed_faces {pair : Pair} : Placed (before.map faces) pair.faces ↔ Placed before pair := by
  have anchor : (before.map faces).head?.any (·.1.endsHead) =
      before.head?.any (·.1.endsHead) := by
    cases before <;> simp [faces, endsHead_face]
  have separator : pair.faces.1.isPunct "::" = pair.1.isPunct "::" := isPunct_face "::"
  constructor
  · rintro ⟨anchored, clear⟩
    rw [isAlike_faces, anchor] at anchored
    rw [separator, clear_faces] at clear
    exact ⟨anchored, clear⟩
  · rintro ⟨anchored, clear⟩
    rw [← isAlike_faces, ← anchor] at anchored
    rw [← separator, ← clear_faces] at clear
    exact ⟨anchored, clear⟩

theorem ordered_faces : Ordered (before.map faces) (pairs.map faces) ↔ Ordered before pairs := by
  induction pairs generalizing before with
  | nil => exact Iff.rfl
  | cons pair pairs ih =>
      rw [List.map_cons, Ordered, Ordered, placed_faces, ← List.map_cons, ih]

theorem ordered_of_faces (same : new.map faces = pairs.map faces) (ordered : Ordered [] pairs) :
    Ordered [] new := by
  have shapes : Ordered (([] : List Pair).map faces) (new.map faces) := by
    rw [same, ordered_faces]
    exact ordered
  exact ordered_faces.mp shapes

/-! Other trees in front of a sequence. -/

theorem ordered_shift (ordered : Ordered before pairs)
    (ends : before.head?.any (·.1.endsHead) = true → other.head?.any (·.1.endsHead) = true)
    (clear : Clear before → Clear other) : Ordered other pairs := by
  induction pairs generalizing before other with
  | nil => trivial
  | cons pair pairs ih =>
      obtain ⟨placed, ordered⟩ := ordered
      exact ⟨⟨placed.anchored.imp id ends, fun separator => clear (placed.clear separator)⟩,
        ih ordered id fun holds => holds.imp id (And.imp id clear)⟩

/-- A token that ends an operand hides what stands in front of it. -/
theorem ordered_of_shielded (ordered : Ordered before pairs)
    (ends : before.head?.any (·.1.endsHead) = true → other.head?.any (·.1.endsHead) = true)
    (shielded : Body.Shielded (pairs.map Prod.fst)) : Ordered other pairs := by
  induction pairs generalizing before other with
  | nil => trivial
  | cons pair pairs ih =>
      obtain ⟨placed, ordered⟩ := ordered
      have anchored := placed.anchored.imp id ends
      rcases shielded with boundary | ⟨noPath, shielded⟩
      · have noPath := Operand.not_separator_of_isBoundary boundary
        refine ⟨⟨anchored, ?_⟩, ordered_shift ordered id fun _ => .inl boundary⟩
        intro separator
        rw [noPath] at separator
        contradiction
      · refine ⟨⟨anchored, ?_⟩, ih ordered id shielded⟩
        intro separator
        rw [noPath] at separator
        contradiction

end Pair

end Headfirst
