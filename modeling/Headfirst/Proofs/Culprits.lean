import Headfirst.Fragment.Source
import Headfirst.Proofs.Locating
import Headfirst.Proofs.Order
import Headfirst.Proofs.TokenConservation

namespace Headfirst

open Headfirst.Tree

/-! Where a run says that it failed.

The tree that is blamed may have been made by a splice, and the marker may have got into another
sequence since the source was read.  Neither has a place of its own: all places in a working tree
are places of the source. -/

namespace Fault

theorem isLimit_eq_false_iff {fault : Fault} :
    fault.isLimit = false ↔ ∀ bound, fault.category ≠ .limit bound := by
  unfold isLimit
  split
  · rename_i bound limit
    simp [limit]
  · rename_i other
    simpa using other

end Fault

theorem kept_isPlaced (parenthesize : Bool) (places : List Loc) :
    Splice.Kept parenthesize fun trees => ∀ tree ∈ trees, tree.IsPlaced places where
  within {before bracket trees after} _ placed := by
    obtain ⟨inside, refill⟩ :=
      @Frame.isPlaced_of_fill places trees [⟨before, bracket, after⟩] placed
    exact ⟨inside, fun others _ other => refill others other⟩
  spliced resolved placed := Site.isPlaced_spliced resolved placed parenthesize

theorem Trace.bareTokens_subset {parenthesize : Bool} {start final : List Tree}
    {splices : List Splice} (trace : Trace parenthesize start splices final) :
    bareTokens final ⊆ bareTokens start := by
  intro token member
  have perm := Splice.follow_perm splices (bareTokens start)
  rw [trace.follow_tokens] at perm
  exact perm.subset (List.mem_append_left _ member)

namespace Malformed

variable {working : List Tree} {site : Site} {failure : Failure}

/-- The marker of a malformed occurrence is a token of the working tree. -/
theorem exists_marker (malformed : Malformed working site failure) :
    ∃ token : Token, site.marker = .leaf token ∧ token.isPunct "::" = true ∧
      token.bare ∈ bareTokens working := by
  obtain ⟨frames, rfl⟩ := malformed.stands
  obtain ⟨token, leaf, separator⟩ := Marker.eq_leaf_of_test malformed.isMarker
  refine ⟨token, leaf, separator, ?_⟩
  have among : token.bare ∈ bareTokens site.trees := by
    simp [Site.trees, leaf, tokens]
  rw [Frame.bareTokens_fill]
  exact List.mem_append_left _ (List.mem_append_right _ among)

theorem exists_culprit (malformed : Malformed working site failure) {places : List Loc}
    (placed : ∀ tree ∈ working, tree.IsPlaced places) :
    ∃ tree : Tree, tree.IsPlaced places ∧ failure.span = tree.span := by
  obtain ⟨frames, rfl⟩ := malformed.stands
  exact Site.exists_culprit malformed.failed (Frame.isPlaced_of_fill placed).1

theorem notes (malformed : Malformed working site failure) :
    failure.diagnostic.notes =
      if failure.span = site.marker.span then []
      else [⟨"postfix construct starts here", some site.marker.span, "note"⟩] := by
  obtain ⟨-, -, marker⟩ := Site.resolve_error malformed.failed
  rw [Failure.diagnostic, marker]
  split <;> rfl

end Malformed

namespace Fragment

section

variable {settings : Settings} {fragment : Fragment} {source file : String}

/-- A run that fails without having exceeded a bound has come, by the splices that it tells of, to
a working tree with a malformed occurrence. -/
theorem front_malformed {failure : Failure}
    (failed : (fragment.front settings).result = .error failure)
    (unlimited : failure.fault.isLimit = false) :
    ∃ rounds middle last working site,
      Course settings.parenthesize fragment.children (fragment.front settings).events
        rounds middle last working ∧
      Malformed working site failure := by
  by_cases deep : Fronting.maxDepth < fragment.tree.depth
  · rw [front_tooDeep deep] at failed
    cases failed
    contradiction
  · have shallow := Nat.not_lt.mp deep
    have completes := Fronting.fixpoint_completes settings fragment.tree.span 0
      fragment.children fragment.begun
    cases loop : Fronting.fixpoint settings fragment.tree.span 0 (markersAll fragment.children)
        fragment.children fragment.begun with
    | stopped stop after =>
        rw [loop] at completes
        rw [front_of_stopped shallow loop] at failed ⊢
        cases failed
        obtain ⟨⟨rounds, middle, last, working, passes, trace, work, stops⟩, -⟩ := completes
        obtain ⟨site, malformed⟩ := stops unlimited
        refine ⟨rounds, middle, last, working, site, ⟨passes, trace, ?_⟩, malformed⟩
        rw [stopped, Progress.filter_isWork_closed rfl, work, work_begun]
        rfl
    | done value after =>
        rw [front_of_done shallow loop] at failed
        contradiction

/-- A source that cannot be read is no matter of an occurrence. -/
theorem lexical_of_read {failure : Failure} (failed : read source file = .error failure) :
    failure.fault.category = .lexical := by
  have spots (spot : Spot) : spot.fault.category = .lexical := by
    fun_cases Spot.fault spot <;> rfl
  rw [read_eq] at failed
  cases scanned : scan [] [] (.start file) source.toList with
  | complete trees trailing =>
      rw [scanned] at failed
      contradiction
  | noToken spot | stray spot | unclosed spot =>
      rw [scanned] at failed
      cases failed
      exact spots spot
  | tooDeep =>
      rw [scanned] at failed
      cases failed
      rfl

/-- A failure is shown with no more than a line of the source. -/
theorem exists_failureIn (source : String) (failure : Failure) :
    ∃ sourceLine, failureIn source failure = { failure.diagnostic with sourceLine } := by
  unfold failureIn Diagnostic.withSource
  split
  · split
    · exact ⟨_, rfl⟩
    · exact ⟨_, rfl⟩
  · exact ⟨_, rfl⟩

/-- The failure of a source because of the way an occurrence is written comes from its run. -/
theorem exists_of_refused {diagnostic : Diagnostic}
    (failed : frontSource settings source file = .error diagnostic)
    (refused : .occurrence ∈ diagnostic.category.lineage)
    (unlimited : ∀ bound, diagnostic.category ≠ .limit bound) :
    ∃ fragment failure, read source file = .ok fragment ∧
      (fragment.front settings).result = .error failure ∧ failure.fault.isLimit = false ∧
      diagnostic = failureIn source failure := by
  unfold frontSource at failed
  cases lexed : read source file with
  | error failure =>
      rw [lexed] at failed
      cases failed
      obtain ⟨line, shown⟩ := exists_failureIn source failure
      rw [shown] at refused
      change _ ∈ failure.fault.category.lineage at refused
      rw [lexical_of_read lexed] at refused
      contradiction
  | ok fragment =>
      rw [lexed] at failed
      simp only at failed
      cases ran : (fragment.front settings).result with
      | ok result =>
          rw [ran] at failed
          contradiction
      | error failure =>
          rw [ran] at failed
          cases failed
          obtain ⟨line, shown⟩ := exists_failureIn source failure
          rw [shown] at unlimited
          exact ⟨fragment, failure, rfl, ran, Fault.isLimit_eq_false_iff.mpr unlimited, rfl⟩

/-- A source that is refused because of an occurrence is refused at a place of a token or a bracket
of it, in its file.  A note says where the marker of the occurrence stands if that is not what is
shown.  The occurrence is malformed in the working tree at which the run has stopped, and the
marker is a token of the source. -/
theorem frontSource_culprit {diagnostic : Diagnostic}
    (failed : frontSource settings source file = .error diagnostic)
    (refused : .occurrence ∈ diagnostic.category.lineage)
    (unlimited : ∀ bound, diagnostic.category ≠ .limit bound) :
    ∃ fragment rounds middle last working site failure,
      read source file = .ok fragment ∧
      (fragment.front settings).result = .error failure ∧
      diagnostic = failureIn source failure ∧
      Course settings.parenthesize fragment.children (fragment.front settings).events
        rounds middle last working ∧
      Malformed working site failure ∧
      (∃ token : Token, site.marker = .leaf token ∧ token.isPunct "::" = true ∧
        token.bare ∈ bareTokens fragment.children) ∧
      diagnostic.span.file = file ∧
      (∃ loc ∈ locsAll fragment.children,
        diagnostic.span.line = loc.line ∧ diagnostic.span.column = loc.col) ∧
      diagnostic.notes =
        if diagnostic.span = site.marker.span then []
        else [⟨"postfix construct starts here", some site.marker.span, "note"⟩] := by
  obtain ⟨fragment, failure, lexed, ran, unlimited, shown⟩ :=
    exists_of_refused failed refused unlimited
  obtain ⟨rounds, middle, last, working, site, course, malformed⟩ :=
    front_malformed ran unlimited
  have placed := (kept_isPlaced _ _).trace course.trace (inOrder_of_read lexed).2
  obtain ⟨tree, known, span⟩ := malformed.exists_culprit placed
  obtain ⟨sameFile, sameLine, sameColumn⟩ := span_of_isPlaced known
  obtain ⟨token, leaf, separator, member⟩ := malformed.exists_marker
  obtain ⟨line, same⟩ := exists_failureIn source failure
  have sameSpan : diagnostic.span = tree.span := by
    rw [shown, same, ← span]
    rfl
  refine ⟨fragment, rounds, middle, last, working, site, failure, lexed, ran, shown, course,
    malformed, ⟨token, leaf, separator, course.trace.bareTokens_subset member⟩, ?_, ?_, ?_⟩
  · rw [sameSpan, sameFile]
    exact file_of_read lexed _ known.loc.1
  · rw [sameSpan]
    exact ⟨tree.loc, known.loc.1, sameLine, sameColumn⟩
  · rw [sameSpan, ← span, shown, same]
    exact malformed.notes

/-- An unknown construct in a group that a splice has put behind `&`. -/
theorem frontSource_culprit_unknown :
    ∃ diagnostic site, frontSource {} "(y::(frob))::(&)" "main.rs" = .error diagnostic ∧
      .occurrence ∈ diagnostic.category.lineage ∧
      (∀ bound, diagnostic.category ≠ .limit bound) ∧
      diagnostic.span = ⟨"main.rs", 1, 6, 1, 10⟩ ∧
      diagnostic.notes =
        [⟨"postfix construct starts here", some (Site.marker site).span, "note"⟩] ∧
      site.marker.span = ⟨"main.rs", 1, 3, 1, 5⟩ := by
  have run : (match frontSource {} "(y::(frob))::(&)" "main.rs" with
      | .error diagnostic =>
          diagnostic.category == .construct "frob" &&
            diagnostic.span == ⟨"main.rs", 1, 6, 1, 10⟩ &&
            diagnostic.notes ==
              [⟨"postfix construct starts here", some ⟨"main.rs", 1, 3, 1, 5⟩, "note"⟩]
      | .ok _ => false) = true := by
    decide +kernel
  cases failed : frontSource {} "(y::(frob))::(&)" "main.rs" with
  | ok output => simp [failed] at run
  | error diagnostic =>
      simp only [failed, Bool.and_eq_true, beq_iff_eq] at run
      obtain ⟨⟨category, span⟩, noted⟩ := run
      have refused : .occurrence ∈ diagnostic.category.lineage := by
        simp [category, Category.lineage]
      have unlimited : ∀ bound, diagnostic.category ≠ .limit bound := by simp [category]
      obtain ⟨_, _, _, _, _, site, _, -, -, -, -, -, -, -, -, notes⟩ :=
        frontSource_culprit failed refused unlimited
      split at notes
      · rw [noted] at notes
        cases notes
      · refine ⟨diagnostic, site, rfl, refused, unlimited, span, notes, ?_⟩
        rw [noted] at notes
        simpa using notes.symm

end

end Fragment

end Headfirst
