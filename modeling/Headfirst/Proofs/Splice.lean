import Headfirst.Proofs.Settled

namespace Headfirst

open Headfirst.Tree

/-! A splice: what it does to the tokens and the markers of the whole working tree. -/

/-- A group around a sequence, with what stands in front of the group and behind it. -/
structure Frame where
  before : List Tree
  bracket : Bracket
  after : List Tree

namespace Frame

variable {trees : List Tree}

/-- The working tree with `trees` in its innermost place.  The innermost frame is the
first. -/
def fill : List Frame → List Tree → List Tree
  | [], trees => trees
  | frame :: frames, trees =>
      fill frames (frame.before ++ .group frame.bracket trees :: frame.after)

def tokensAhead : List Frame → List Token
  | [] => []
  | frame :: frames => tokensAhead frames ++ bareTokens frame.before

def tokensBehind : List Frame → List Token
  | [] => []
  | frame :: frames => bareTokens frame.after ++ tokensBehind frames

/-- The markers outside the innermost place. -/
def markersAround : List Frame → Nat
  | [] => 0
  | frame :: frames =>
      markersBefore (some (.group frame.bracket [])) frame.before + markersAll frame.after +
        markersAround frames

theorem bareTokens_fill (frames : List Frame) (trees : List Tree) :
    bareTokens (fill frames trees) =
      tokensAhead frames ++ bareTokens trees ++ tokensBehind frames := by
  induction frames generalizing trees with
  | nil => simp [fill, tokensAhead, tokensBehind]
  | cons frame frames ih =>
      have inside : bareTokens [.group frame.bracket trees] = bareTokens trees := by
        simp [tokensAll, tokens, bareTokens]
      rw [fill, ih, tokensAhead, tokensBehind, bareTokens_append, ← List.singleton_append,
        bareTokens_append, inside]
      simp only [List.append_assoc]

theorem markersAll_fill (frames : List Frame) (trees : List Tree) :
    markersAll (fill frames trees) = markersAround frames + markersAll trees := by
  induction frames generalizing trees with
  | nil => simp [fill, markersAround]
  | cons frame frames ih =>
      rw [fill, ih, markersAll_around, markersAround]
      omega

end Frame

namespace Replacement

variable {operand body : List Tree} {head : Head} (parenthesize : Bool)

/-- The operand is put in a group, unless it is a single tree already. -/
theorem wrapped_cases (operand : List Tree) :
    (∃ bracket, wrapped parenthesize operand = .group bracket (bareOperand operand)) ∨
      bareOperand operand = [wrapped parenthesize operand] := by
  unfold wrapped
  simp only
  split
  · exact .inl ⟨_, rfl⟩
  · split
    · rename_i tree single
      exact .inr single
    · exact .inl ⟨_, rfl⟩

theorem bareTokens_wrapped (operand : List Tree) :
    (wrapped parenthesize operand).tokens.map Token.bare = bareTokens operand := by
  rw [← bareTokens_eq_of_bare (bare_bareOperand operand)]
  rcases wrapped_cases parenthesize operand with ⟨bracket, grouped⟩ | single
  · rw [grouped]
    rfl
  · rw [single]
    simp

theorem bareTokens_make (operand body : List Tree) (head : Head) :
    (make parenthesize operand head body).tokens.map Token.bare =
      bareTokens head.trees ++ bareTokens operand ++ bareTokens body := by
  change bareTokens (spaced _) = _
  rw [bareTokens_eq_of_bare (bare_spaced _)]
  simp [bareTokens_wrapped]

theorem isInvisible_make (operand body : List Tree) (head : Head) :
    (make parenthesize operand head body).isInvisible = true := rfl

theorem ends_bareOperand (ends : EndsHarmlessly operand) :
    EndsHarmlessly (bareOperand operand) :=
  endsHarmlessly_of_bare (bare_bareOperand operand).symm ends

theorem wrapped_not_separator (ends : EndsHarmlessly operand) :
    (wrapped parenthesize operand).isPunct "::" = false := by
  rcases wrapped_cases parenthesize operand with ⟨bracket, grouped⟩ | single
  · rw [grouped]
    rfl
  · have last := ends_bareOperand ends
    rw [single] at last
    exact last _ rfl

theorem markers_wrapped (ends : EndsHarmlessly operand) :
    (wrapped parenthesize operand).markers = markersAll operand := by
  have bare : markersAll (bareOperand operand) = markersAll operand := by
    rw [← markersBefore_none, ← markersBefore_none,
      markersBefore_eq_of_bare (bare_bareOperand operand)]
  rw [← bare]
  rcases wrapped_cases parenthesize operand with ⟨bracket, grouped⟩ | single
  · rw [grouped]
    rfl
  · rw [single]
    simp [markersAll, Marker.test_eq_false (wrapped_not_separator parenthesize ends)]

theorem markers_make (headEnds : EndsHarmlessly head.trees) (ends : EndsHarmlessly operand) :
    (make parenthesize operand head body).markers =
      markersAll head.trees + markersAll operand + markersAll body := by
  have inside : (make parenthesize operand head body).markers =
      markersAll (head.trees ++ wrapped parenthesize operand :: body) := by
    change markersAll (spaced _) = _
    rw [← markersBefore_none, ← markersBefore_none, markersBefore_eq_of_bare (bare_spaced _)]
  rw [inside, markersAll_append, headEnds.markersBefore_eq_markersAll, markersAll_cons,
    Marker.test_eq_false (wrapped_not_separator parenthesize ends),
    markers_wrapped parenthesize ends]
  simp only [Bool.toNat_false]
  omega

end Replacement

namespace Site

variable {site : Site} {reach : Nat} {occurrence : Occurrence}

def spliced (occurrence : Occurrence) (parenthesize : Bool) : List Tree :=
  occurrence.before.reverse ++ occurrence.replacement parenthesize :: occurrence.after

def trees (site : Site) : List Tree :=
  site.before.reverse ++ site.marker :: site.after

theorem resolve_parts (resolved : site.resolve reach = .ok occurrence) :
    ∃ group, Head.ofGroup group = .ok occurrence.head ∧ occurrence.operand ≠ [] ∧
      site.before.reverse = occurrence.before.reverse ++ occurrence.operand ∧
      site.after = group :: (occurrence.body ++ occurrence.after) := by
  obtain ⟨before, nonempty, group, parsed, after⟩ := divide_eq_ok (resolve_eq_ok.mp resolved)
  exact ⟨group, parsed, nonempty, by simp [← before], after.symm⟩

theorem resolve_taken (resolved : site.resolve reach = .ok occurrence) :
    ∃ operand, Operand.take reach site.before site.marker = .ok operand ∧
      occurrence.operand = operand.reverse ∧
      occurrence.before = site.before.drop operand.length ∧
      ∃ group after, Body.take occurrence.head group after =
        .ok (occurrence.body, occurrence.after) := by
  have divided := resolve_eq_ok.mp resolved
  unfold divide at divided
  split at divided
  · contradiction
  · rename_i operand taken
    split at divided
    · contradiction
    · rename_i group after following
      split at divided
      · contradiction
      · split at divided
        · contradiction
        · rename_i captured
          cases divided
          exact ⟨operand, taken, rfl, rfl, group, after, captured⟩

theorem ends_operand (resolved : site.resolve reach = .ok occurrence) :
    EndsHarmlessly occurrence.operand := by
  obtain ⟨operand, taken, equal, -⟩ := resolve_taken resolved
  rw [equal]
  exact Operand.ends_take taken

theorem endsIn_body (resolved : site.resolve reach = .ok occurrence) :
    EndsIn Body.isBlock occurrence.body := by
  obtain ⟨operand, -, -, -, group, after, captured⟩ := resolve_taken resolved
  exact Body.endsIn_take captured

theorem ends_body (resolved : site.resolve reach = .ok occurrence) :
    EndsHarmlessly occurrence.body :=
  (endsIn_body resolved).harmless fun _ block => isPunct_of_isGroup block _

/-- Where the operand is cut off: what it begins with, and what stands before it. -/
theorem resolve_cut (resolved : site.resolve reach = .ok occurrence) :
    0 < Operand.length reach site.before ∧
      occurrence.before = site.before.drop (Operand.length reach site.before) ∧
      occurrence.operand.head? =
        (site.before.take (Operand.length reach site.before)).getLast?.or (some site.marker) := by
  obtain ⟨operand, taken, equal, rest, -⟩ := resolve_taken resolved
  obtain ⟨cut, nonempty⟩ := Operand.take_eq_take_length taken
  have count := Operand.length_of_take taken
  refine ⟨?_, by rw [rest, count], ?_⟩
  · rw [← count]
    exact List.length_pos_iff.mpr nonempty
  · rw [equal, List.head?_reverse, ← cut, List.getLast?_eq_some_getLast nonempty]
    rfl

/-- The tree in front of an operand is a marker before the replacement if and only if it was
one before the operand. -/
theorem test_before_replacement (settled : Settled reach site.before (some site.marker))
    (resolved : site.resolve reach = .ok occurrence) (parenthesize : Bool) {tree : Tree}
    (nearest : occurrence.before.head? = some tree) :
    Marker.test tree (some (occurrence.replacement parenthesize)) =
      Marker.test tree occurrence.operand.head? := by
  obtain ⟨positive, rest, first⟩ := resolve_cut resolved
  rw [rest] at nearest
  rw [first]
  exact Operand.test_before_length settled
    (Replacement.isInvisible_make parenthesize occurrence.operand occurrence.body
      occurrence.head) positive nearest

/-- In front of the replacement stand the same markers as in front of the operand. -/
theorem markersBefore_replacement (settled : Settled reach site.before (some site.marker))
    (resolved : site.resolve reach = .ok occurrence) (parenthesize : Bool) :
    markersBefore (some (occurrence.replacement parenthesize)) occurrence.before.reverse =
      markersBefore occurrence.operand.head? occurrence.before.reverse := by
  cases stop : occurrence.before with
  | nil => rfl
  | cons tree others =>
      rw [List.reverse_cons]
      exact markersBefore_concat_congr _
        (test_before_replacement settled resolved parenthesize (by rw [stop]; rfl))

theorem markersAll_spliced_parts (settled : Settled reach site.before (some site.marker))
    (resolved : site.resolve reach = .ok occurrence) (parenthesize : Bool) :
    markersAll (spliced occurrence parenthesize) =
      markersBefore occurrence.operand.head? occurrence.before.reverse +
        (markersAll occurrence.head.trees + markersAll occurrence.operand +
          markersAll occurrence.body) + markersAll occurrence.after := by
  obtain ⟨group, parsed, -⟩ := resolve_parts resolved
  have inside : (occurrence.replacement parenthesize).markers =
      markersAll occurrence.head.trees + markersAll occurrence.operand +
        markersAll occurrence.body :=
    Replacement.markers_make parenthesize (Head.ends_ofGroup parsed) (ends_operand resolved)
  have isGroup : Marker.test (occurrence.replacement parenthesize) occurrence.after.head? =
      false := rfl
  rw [spliced, markersAll_append, List.head?_cons,
    markersBefore_replacement settled resolved parenthesize, markersAll_cons, inside, isGroup]
  simp only [Bool.toNat_false]
  omega

theorem markersAll_trees_parts (isMarker : Marker.test site.marker site.after.head? = true)
    (resolved : site.resolve reach = .ok occurrence) :
    markersAll site.trees =
      markersBefore occurrence.operand.head? occurrence.before.reverse +
        markersAll occurrence.operand + 1 + markersAll occurrence.head.trees +
        markersAll occurrence.body + markersAll occurrence.after := by
  obtain ⟨group, parsed, nonempty, before, after⟩ := resolve_parts resolved
  obtain ⟨bracket, rfl⟩ := Head.eq_group parsed
  have isLeaf : site.marker.markers = 0 := by
    obtain ⟨token, leaf, -⟩ := Marker.eq_leaf_of_test isMarker
    rw [leaf]
    rfl
  have first : (occurrence.operand ++ site.marker :: site.after).head? =
      occurrence.operand.head? := by
    cases operand : occurrence.operand with
    | nil => exact absurd operand nonempty
    | cons tree others => rfl
  rw [trees, before, List.append_assoc, markersAll_append, first, markersAll_append,
    (ends_operand resolved).markersBefore_eq_markersAll, markersAll_cons, isMarker, isLeaf,
    after, markersAll_cons, Marker.test_group, markers, markersAll_append,
    (ends_body resolved).markersBefore_eq_markersAll]
  simp only [Bool.toNat_false, Bool.toNat_true]
  omega

/-- A splice takes away its own marker and leaves the others what they are. -/
theorem markersAll_spliced (isMarker : Marker.test site.marker site.after.head? = true)
    (settled : Settled reach site.before (some site.marker))
    (resolved : site.resolve reach = .ok occurrence) (parenthesize : Bool) :
    markersAll (spliced occurrence parenthesize) + 1 = markersAll site.trees := by
  rw [markersAll_spliced_parts settled resolved, markersAll_trees_parts isMarker resolved]
  omega

end Site

end Headfirst
