import Headfirst.Proofs.Chaining

namespace Headfirst

open Headfirst.Tree

/-! What a run does to the tokens.  A splice moves the tokens of a head in front of those of
the operand and drops the marker between them.  Anything that is attached to the tokens of
a working tree can be taken along, so the places of the tokens in the input can be followed
through a run. -/

/-- What is attached to the tokens of a working tree, cut up around an occurrence. -/
structure Cut (α : Type) where
  before : List α
  operand : List α
  marker : List α
  head : List α
  rest : List α

namespace Cut

variable {α β : Type}

def whole (cut : Cut α) : List α :=
  cut.before ++ cut.operand ++ cut.marker ++ cut.head ++ cut.rest

def moved (cut : Cut α) : List α :=
  cut.before ++ cut.head ++ cut.operand ++ cut.rest

def map (f : α → β) (cut : Cut α) : Cut β :=
  ⟨cut.before.map f, cut.operand.map f, cut.marker.map f, cut.head.map f, cut.rest.map f⟩

theorem map_moved (f : α → β) (cut : Cut α) : (cut.map f).moved = cut.moved.map f := by
  simp [map, moved]

theorem moved_perm (cut : Cut α) : (cut.moved ++ cut.marker).Perm cut.whole := by
  have behind : (cut.head ++ (cut.operand ++ (cut.rest ++ cut.marker))).Perm
      (cut.operand ++ (cut.marker ++ (cut.head ++ cut.rest))) := by
    refine (List.perm_append_comm_assoc ..).trans (.append_left _ ?_)
    rw [← List.append_assoc]
    exact List.perm_append_comm
  simpa only [moved, whole, List.append_assoc] using behind.append_left cut.before

/-- Whatever is kept of a cut without its head keeps its order. -/
theorem moved_sublist (cut : Cut α) (keep : α → Bool)
    (outside : ∀ label ∈ cut.head, keep label = false) :
    (cut.moved.filter keep).Sublist (cut.whole.filter keep) := by
  have head : cut.head.filter keep = [] := by
    rw [List.filter_eq_nil_iff]
    intro label member
    simp [outside label member]
  simp only [moved, whole, List.filter_append, head, List.append_assoc, List.nil_append]
  refine .append_left (.append_left ?_ _) _
  exact List.sublist_append_right ..

end Cut

namespace Splice

variable {α β : Type}

def cut (splice : Splice) (labels : List α) : Cut α :=
  let before := Frame.tokensAhead splice.frames ++ bareTokens splice.occurrence.before.reverse
  let operand := labels.drop before.length
  let marker := operand.drop (bareTokens splice.occurrence.operand).length
  let head := marker.drop 1
  let tokens := bareTokens splice.occurrence.head.trees
  { before := labels.take before.length
    operand := operand.take (bareTokens splice.occurrence.operand).length
    marker := marker.take 1
    head := head.take tokens.length
    rest := head.drop tokens.length }

theorem cut_whole (splice : Splice) (labels : List α) : (splice.cut labels).whole = labels := by
  simp only [cut, Cut.whole, List.append_assoc, List.take_append_drop]

theorem cut_map (f : α → β) (splice : Splice) (labels : List α) :
    splice.cut (labels.map f) = (splice.cut labels).map f := by
  simp only [cut, Cut.map, List.map_take, List.map_drop]

/-- What the tokens are after the splices, by what they were before them. -/
def follow : List Splice → List α → List α
  | [], labels => labels
  | splice :: splices, labels => follow splices (splice.cut labels).moved

def marks : List Splice → List α → List α
  | [], _ => []
  | splice :: splices, labels =>
      (splice.cut labels).marker ++ marks splices (splice.cut labels).moved

/-- What lies in the heads that splices move. -/
def heads : List Splice → List α → List α
  | [], _ => []
  | splice :: splices, labels =>
      (splice.cut labels).head ++ heads splices (splice.cut labels).moved

variable (splices : List Splice) (labels : List α)

theorem follow_map (f : α → β) :
    follow splices (labels.map f) = (follow splices labels).map f := by
  induction splices generalizing labels with
  | nil => rfl
  | cons splice splices ih => rw [follow, follow, cut_map, Cut.map_moved, ih]

theorem marks_map (f : α → β) :
    marks splices (labels.map f) = (marks splices labels).map f := by
  induction splices generalizing labels with
  | nil => rfl
  | cons splice splices ih =>
      rw [marks, marks, cut_map, Cut.map_moved, ih, List.map_append]
      rfl

theorem heads_map (f : α → β) :
    heads splices (labels.map f) = (heads splices labels).map f := by
  induction splices generalizing labels with
  | nil => rfl
  | cons splice splices ih =>
      rw [heads, heads, cut_map, Cut.map_moved, ih, List.map_append]
      rfl

/-- Nothing but the markers is lost, and nothing is made twice. -/
theorem follow_perm : (follow splices labels ++ marks splices labels).Perm labels := by
  induction splices generalizing labels with
  | nil => simp [follow, marks]
  | cons splice splices ih =>
      have here := (splice.cut labels).moved_perm
      rw [cut_whole] at here
      have later := (ih (splice.cut labels).moved).append_right (splice.cut labels).marker
      refine .trans ?_ (later.trans here)
      rw [follow, marks, List.append_assoc]
      exact .append_left _ List.perm_append_comm

theorem follow_sublist (keep : α → Bool)
    (outside : ∀ label ∈ heads splices labels, keep label = false) :
    ((follow splices labels).filter keep).Sublist (labels.filter keep) := by
  induction splices generalizing labels with
  | nil => exact .refl _
  | cons splice splices ih =>
      have here := (splice.cut labels).moved_sublist keep fun label member =>
        outside label (List.mem_append_left _ member)
      rw [cut_whole] at here
      refine .trans (ih _ ?_) here
      intro label member
      exact outside label (List.mem_append_right _ member)

/-- How a splice that is due cuts up the tokens of the working tree. -/
theorem Due.cut_source {splice : Splice} (due : splice.Due) :
    ∃ marker : Token, marker.isPunct "::" = true ∧
      splice.cut (bareTokens splice.source) =
        { before :=
            Frame.tokensAhead splice.frames ++ bareTokens splice.occurrence.before.reverse
          operand := bareTokens splice.occurrence.operand
          marker := [marker]
          head := bareTokens splice.occurrence.head.trees
          rest := bareTokens splice.occurrence.body ++ bareTokens splice.occurrence.after ++
            Frame.tokensBehind splice.frames } := by
  obtain ⟨isMarker, reach, -, resolved⟩ := due
  obtain ⟨group, parsed, -, before, after⟩ := Site.resolve_parts resolved
  obtain ⟨bracket, rfl⟩ := Head.eq_group parsed
  obtain ⟨marker, leaf, separator⟩ := Marker.eq_leaf_of_test isMarker
  have head : (tokensAll splice.occurrence.head.trees).map Token.bare =
      bareTokens splice.occurrence.head.trees := rfl
  refine ⟨marker.bare, separator, ?_⟩
  have source : bareTokens splice.source =
      (Frame.tokensAhead splice.frames ++ bareTokens splice.occurrence.before.reverse) ++
        (bareTokens splice.occurrence.operand ++ (marker.bare ::
          (bareTokens splice.occurrence.head.trees ++
            (bareTokens splice.occurrence.body ++ bareTokens splice.occurrence.after ++
              Frame.tokensBehind splice.frames)))) := by
    rw [Splice.source, Frame.bareTokens_fill, Site.trees, before, after, leaf]
    simp [head, tokens]
  rw [source]
  simp only [cut, List.take_left, List.drop_left, List.take_succ_cons, List.take_zero,
    List.drop_succ_cons, List.drop_zero]

theorem Due.moved_source {splice : Splice} (due : splice.Due) (parenthesize : Bool) :
    (splice.cut (bareTokens splice.source)).moved = bareTokens (splice.target parenthesize) := by
  obtain ⟨marker, -, cut⟩ := due.cut_source
  rw [cut, target, Frame.bareTokens_fill, Site.spliced, Cut.moved, bareTokens_append,
    bareTokens_cons, Occurrence.replacement, Replacement.bareTokens_make]
  simp only [List.append_assoc]

end Splice

namespace Trace

variable {parenthesize : Bool} {start final : List Tree} {splices : List Splice}

theorem follow_tokens (trace : Trace parenthesize start splices final) :
    Splice.follow splices (bareTokens start) = bareTokens final := by
  induction trace with
  | done => rfl
  | splice due rest ih => rw [Splice.follow, due.moved_source parenthesize, ih]

theorem length_marks (trace : Trace parenthesize start splices final) :
    (Splice.marks splices (bareTokens start)).length = splices.length := by
  induction trace with
  | done => rfl
  | splice due rest ih =>
      obtain ⟨marker, -, cut⟩ := due.cut_source
      rw [Splice.marks, due.moved_source parenthesize, List.length_append, ih, cut]
      simp only [List.length_cons, List.length_nil]
      omega

theorem marks_tokens (trace : Trace parenthesize start splices final) :
    ∀ token ∈ Splice.marks splices (bareTokens start), token.isPunct "::" = true := by
  induction trace with
  | done => simp [Splice.marks]
  | splice due rest ih =>
      obtain ⟨marker, separator, cut⟩ := due.cut_source
      rw [Splice.marks, due.moved_source parenthesize, cut]
      intro token member
      rcases List.mem_cons.mp member with rfl | member
      · exact separator
      · exact ih token member

theorem heads_tokens (trace : Trace parenthesize start splices final) :
    Splice.heads splices (bareTokens start) =
      splices.flatMap fun splice => bareTokens splice.occurrence.head.trees := by
  induction trace with
  | done => rfl
  | splice due rest ih =>
      obtain ⟨marker, -, cut⟩ := due.cut_source
      rw [Splice.heads, due.moved_source parenthesize, ih, cut, List.flatMap_cons]

end Trace

/-- What a list holds at each of its places. -/
theorem map_getElem?_range {α : Type} (items : List α) :
    (List.range items.length).map (items[·]?) = items.map some := by
  apply List.ext_getElem
  · simp
  · intro index left right
    simp

namespace Fragment

variable {settings : Settings} {fragment result : Fragment}

/-- A run conserves the tokens.  Each token of the result has its place in the input, and
the places without a token in the result are as many as there are splices; a marker stood
at each of them.  The places outside the heads of the spliced occurrences keep their
order. -/
theorem front_conserves_tokens (succeeded : (fragment.front settings).result = .ok result) :
    ∃ rounds final,
      Course settings.parenthesize fragment.children (fragment.front settings).events
        rounds final [] final ∧
      result = { fragment with children := settle settings final } ∧
      let splices := Round.splicesAll rounds
      let input := bareTokens fragment.children
      let output := bareTokens result.children
      let places := List.range input.length
      let kept := Splice.follow splices places
      let marks := Splice.marks splices places
      let heads := Splice.heads splices places
      kept.map (input[·]?) = output.map some ∧
      (kept ++ marks).Perm places ∧
      (output ++ Splice.marks splices input).Perm input ∧
      marks.length = (fragment.front settings).splices ∧
      (∀ place ∈ marks, ∃ token, input[place]? = some token ∧ token.isPunct "::" = true) ∧
      heads.map (input[·]?) =
        (splices.flatMap fun splice => bareTokens splice.occurrence.head.trees).map some ∧
      (kept.filter (· ∉ heads)).Sublist places := by
  obtain ⟨rounds, middle, last, final, course, -, ended⟩ := front_course settings fragment
  obtain ⟨rfl, children, counted, -⟩ := ended result succeeded
  cases course.rest
  refine ⟨rounds, middle, course, children, ?_⟩
  have trace := course.passes.trace
  have output : bareTokens result.children = bareTokens middle := by
    rw [children]
    exact bareTokens_settle settings middle
  have input := map_getElem?_range (bareTokens fragment.children)
  have marked : (Splice.marks (Round.splicesAll rounds)
      (List.range (bareTokens fragment.children).length)).map
        ((bareTokens fragment.children)[·]?) =
      (Splice.marks (Round.splicesAll rounds) (bareTokens fragment.children)).map some := by
    rw [← Splice.marks_map, input, Splice.marks_map]
  simp only
  refine ⟨?_, Splice.follow_perm _ _, ?_, ?_, ?_, ?_, ?_⟩
  · rw [← Splice.follow_map, input, Splice.follow_map, trace.follow_tokens, output]
  · rw [output, ← trace.follow_tokens]
    exact Splice.follow_perm _ _
  · have same := congrArg List.length marked
    rw [List.length_map, List.length_map, trace.length_marks] at same
    rw [same, counted]
  · intro place member
    have found : (bareTokens fragment.children)[place]? ∈
        (Splice.marks (Round.splicesAll rounds) (bareTokens fragment.children)).map some := by
      rw [← marked]
      exact List.mem_map_of_mem member
    obtain ⟨token, mark, equal⟩ := List.mem_map.mp found
    exact ⟨token, equal.symm, trace.marks_tokens token mark⟩
  · rw [← Splice.heads_map, input, Splice.heads_map, trace.heads_tokens]
  · have order := Splice.follow_sublist (Round.splicesAll rounds)
      (List.range (bareTokens fragment.children).length)
      (fun place => decide (place ∉ Splice.heads (Round.splicesAll rounds)
        (List.range (bareTokens fragment.children).length)))
      (fun place member => by simp [member])
    exact order.trans List.filter_sublist

theorem front_conserves_tokens_arms_reference :
    let chain := Chain.lone Chain.name Chain.isPlain_name rfl .arms [.reference]
    ∃ result, (chain.fragment.front {}).result = .ok result ∧
      ∃ kept marks : List Nat, marks.length = 2 ∧ (kept ++ marks).Perm (List.range 5) ∧
        kept.map ((bareTokens chain.fragment.children)[·]?) =
          (bareTokens result.children).map some := by
  intro chain
  have alone : chain.Alone := Chain.alone_lone _ _
  obtain ⟨succeeded, -, splices, -⟩ := Chain.front_fill {} [] { delimiter := .invisible } alone
    rfl rfl (by decide) (by decide) (by decide)
  obtain ⟨rounds, final, -, -, tokens, conserved, -, counted, -⟩ :=
    front_conserves_tokens succeeded
  exact ⟨_, succeeded, _, _, counted.trans splices, conserved, tokens⟩

end Fragment

end Headfirst
