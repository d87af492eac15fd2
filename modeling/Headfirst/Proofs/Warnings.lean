import Headfirst.Proofs.Again
import Mathlib.Data.List.Dedup

namespace Headfirst

open Headfirst.Tree Headfirst.Fronting

/-! The warnings of a tolerant run, against the markers that it leaves.

A run keeps each report once, whenever it was made.  The markers that are left have their
reports among the warnings.  The other way round a warning only tells what a sweep has found:
later passes may find the occurrence in another state, or whole. -/

/-- What a warning says: its code, its place and its message. -/
def Failure.report (failure : Failure) : String × Int × Int × String :=
  (failure.fault.code.text, failure.span.line, failure.span.column, failure.fault.message)

namespace Progress

variable {kept failures : List Failure} {failure : Failure}

theorem sameReport_iff {left right : Failure} :
    sameReport left right = true ↔ left.report = right.report := by
  simp [sameReport, Failure.report, and_assoc]

theorem any_sameReport : kept.any (sameReport failure) = true ↔
    failure.report ∈ kept.map Failure.report := by
  simp only [List.any_eq_true, sameReport_iff, List.mem_map]
  constructor
  · rintro ⟨other, member, same⟩
    exact ⟨other, member, same.symm⟩
  · rintro ⟨other, member, same⟩
    exact ⟨other, member, same.symm⟩

theorem noted_cons : noted kept (failure :: failures) =
    noted (if kept.any (sameReport failure) then kept else kept ++ [failure]) failures := rfl

theorem report_mem_noted {report : String × Int × Int × String} :
    report ∈ (noted kept failures).map Failure.report ↔
      report ∈ kept.map Failure.report ∨ report ∈ failures.map Failure.report := by
  induction failures generalizing kept with
  | nil => simp [noted]
  | cons failure failures ih =>
      rw [noted_cons, ih, List.map_cons, List.mem_cons]
      split
      · rename_i known
        rw [any_sameReport] at known
        constructor
        · rintro (old | new)
          · exact .inl old
          · exact .inr (.inr new)
        · rintro (old | rfl | new)
          · exact .inl old
          · exact .inl known
          · exact .inr new
      · rw [List.map_append, List.mem_append, List.map_singleton, List.mem_singleton, or_assoc]

/-- No report is kept twice. -/
theorem nodup_noted (nodup : (kept.map Failure.report).Nodup) :
    ((noted kept failures).map Failure.report).Nodup := by
  induction failures generalizing kept with
  | nil => exact nodup
  | cons failure failures ih =>
      rw [noted_cons]
      refine ih ?_
      split
      · exact nodup
      · rename_i unknown
        rw [any_sameReport] at unknown
        rw [List.map_append, List.map_singleton]
        exact nodup.append (List.nodup_singleton _) (by simpa using unknown)

theorem mem_noted (member : failure ∈ noted kept failures) :
    failure ∈ kept ∨ failure ∈ failures := by
  induction failures generalizing kept with
  | nil => exact .inl member
  | cons other failures ih =>
      rw [noted_cons] at member
      rcases ih member with old | new
      · split at old
        · exact .inl old
        · rw [List.mem_append, List.mem_singleton] at old
          rcases old with old | rfl
          · exact .inl old
          · exact .inr List.mem_cons_self
      · exact .inr (List.mem_cons_of_mem _ new)

end Progress

/-- The reports of the markers that cannot be resolved. -/
def Post.reports (posts : List Post) : List (String × Int × Int × String) :=
  posts.filterMap fun post => post.site.failure?.map Failure.report

theorem Post.mem_reports {posts : List Post} {report : String × Int × Int × String} :
    report ∈ reports posts ↔
      ∃ post ∈ posts, ∃ failure, post.site.failure? = some failure ∧ failure.report = report := by
  simp [reports]

theorem Post.length_reports {posts : List Post}
    (stuck : ∀ post ∈ posts, post.site.failure?.isSome = true) :
    (reports posts).length = posts.length := by
  rw [reports, List.filterMap_length_eq_length]
  intro post member
  simpa using stuck post member

/-- Warnings with different reports, among them all of the given ones: those with another report,
and one for each report given. -/
theorem Progress.length_eq_of_reports {kept : List Failure}
    {reports : List (String × Int × Int × String)} (nodup : (kept.map Failure.report).Nodup)
    (noted : ∀ report ∈ reports, report ∈ kept.map Failure.report) :
    kept.length = (kept.filter (·.report ∉ reports)).length + reports.dedup.length := by
  have given : ((kept.filter (·.report ∈ reports)).map Failure.report).Perm reports.dedup := by
    rw [List.perm_ext_iff_of_nodup (nodup.sublist (List.filter_sublist.map _)) reports.nodup_dedup]
    intro report
    rw [List.mem_dedup, List.mem_map]
    constructor
    · rintro ⟨failure, member, rfl⟩
      simpa using (List.mem_filter.mp member).2
    · intro member
      obtain ⟨failure, found, rfl⟩ := List.mem_map.mp (noted report member)
      exact ⟨failure, List.mem_filter.mpr ⟨found, by simpa using member⟩, rfl⟩
  rw [← given.length_eq, List.length_map, Nat.add_comm,
    List.length_eq_length_filter_add (·.report ∈ reports)]
  simp

/-- An occurrence that a sweep leaves untouched stands as it stood until the end of the sweep. -/
theorem Sweep.left_stays {parenthesize : Bool} {stand last : Stand} {moves : List Move}
    (sweep : Sweep parenthesize stand moves last)
    (ready : Ready stand.floor stand.before stand.rest) :
    ∀ site failure, .left site failure ∈ moves →
      Marker.test site.marker site.after.head? = true ∧
        (∃ reach, site.resolve reach = .error failure) ∧
        last.trees.take (untouchedEnd site.before.length site.after) =
          site.trees.take (untouchedEnd site.before.length site.after) := by
  induction sweep with
  | rest => simp
  | skip noMarker later ih => exact ih (ready.skip noMarker)
  | @leave floor before after tree reason moves last isMarker failed later ih =>
      intro site failure member
      rcases List.mem_cons.mp member with same | member
      · cases same
        have kept := (later.beyond (.tolerate isMarker before) (Nat.le_refl _)).2
        refine ⟨isMarker, ⟨_, failed⟩, kept.trans ?_⟩
        simp [Stand.trees, Site.trees]
      · exact ih (.tolerate isMarker before) site failure member
  | splice isMarker resolved later ih =>
      intro site failure member
      rcases List.mem_cons.mp member with same | member
      · contradiction
      · exact ih (ready.splice resolved parenthesize) site failure member

theorem Tour.left_stays {parenthesize : Bool} {start final : List Tree} {visits : List Visit}
    (tour : Tour parenthesize start visits final) {failure : Failure}
    (noted : failure ∈ (Visit.movesAll visits).filterMap Move.failure?) :
    ∃ visit ∈ visits, ∃ site, .left site failure ∈ visit.moves ∧
      Marker.test site.marker site.after.head? = true ∧
      (∃ reach, site.resolve reach = .error failure) ∧
      visit.last.trees.take (untouchedEnd site.before.length site.after) =
        site.trees.take (untouchedEnd site.before.length site.after) := by
  obtain ⟨move, member, found⟩ := List.mem_filterMap.mp noted
  obtain ⟨visit, visited, member⟩ := List.mem_flatMap.mp member
  cases move with
  | spliced site occurrence => contradiction
  | left site reason =>
      cases found
      have sweep := tour.sweep_of_mem visit visited
      exact ⟨visit, visited, site, member,
        sweep.left_stays (Ready.start visit.trees) site failure member⟩

namespace Fragment

variable {settings : Settings} {fragment result : Fragment}

/-- The markers of a result are those of the working tree, without the hidden ones where groups are
dissolved. -/
theorem markers_settle (settings : Settings) (fragment : Fragment) (final : List Tree) :
    ({ fragment with children := settle settings final } : Fragment).tree.markers =
      (if settings.keepGroups then posts final else (posts final).filter Post.isKept).length := by
  simp only [tree, Tree.markers, settle]
  split
  · rw [length_posts]
  · rw [markersAll_flattenAll_eq]

/-- A tolerant run as a tour.  Its warnings are the failures that the sweeps have met, and the last
of them are those of the markers that are left. -/
theorem front_tour (tolerant : settings.tolerant = true)
    (succeeded : (fragment.front settings).result = .ok result) :
    ∃ visits final, Tour settings.parenthesize fragment.children visits final ∧
      result = { fragment with children := settle settings final } ∧
      (∀ post ∈ posts final, post.site.failure?.isSome = true) ∧
      (fragment.front settings).tolerated =
        Progress.noted [] ((Visit.movesAll visits).filterMap Move.failure?) ∧
      ∃ kept failures, failures.Perm ((posts final).filterMap (·.site.failure?)) ∧
        (fragment.front settings).tolerated = Progress.noted kept failures ∧
        ((fragment.front settings).passes = 1 → kept = []) := by
  obtain ⟨final, number, after, done, same, -, tolerated, passes⟩ := front_final succeeded
  obtain ⟨stuck, kept, failures, perm, last, single⟩ := fixpoint_stuck tolerant done
  have leads := fixpoint_leads (toured_composes settings.parenthesize) (siblings_toured settings)
    fragment.tree.span 0 (markersAll fragment.children) fragment.children fragment.begun
  rw [done] at leads
  obtain ⟨visits, tour, told⟩ := leads
  rw [tolerated, passes]
  exact ⟨visits, final, tour, same, stuck, told.tolerated, kept, failures, perm, last, single⟩

/-- The warnings of a tolerant run are the reports of the occurrences that its sweeps have left
untouched, each kept once; such an occurrence stands as it stood until the end of its sweep.
Of the markers in the working tree after the last pass each has exactly one warning with its
report.  The other warnings are outdated: no marker has their report any more, and there are none
if one pass is enough.  So there are as many warnings as markers in the result if none is outdated,
no two markers have the same report, and no marker is hidden where groups are dissolved. -/
theorem front_warnings (tolerant : settings.tolerant = true)
    (succeeded : (fragment.front settings).result = .ok result) :
    let warnings := (fragment.front settings).tolerated
    ∃ visits final, Tour settings.parenthesize fragment.children visits final ∧
      result = { fragment with children := settle settings final } ∧
      warnings = Progress.noted [] ((Visit.movesAll visits).filterMap Move.failure?) ∧
      (∀ warning ∈ warnings, ∃ visit ∈ visits, ∃ site, .left site warning ∈ visit.moves ∧
        Marker.test site.marker site.after.head? = true ∧
        (∃ reach, site.resolve reach = .error warning) ∧
        visit.last.trees.take (untouchedEnd site.before.length site.after) =
          site.trees.take (untouchedEnd site.before.length site.after)) ∧
      (∀ post ∈ posts final, post.trees = final ∧
        Marker.test post.site.marker post.site.after.head? = true ∧
        ∃ failure, post.site.failure? = some failure ∧
          (warnings.map Failure.report).count failure.report = 1) ∧
      (posts final).length = markersAll final ∧
      result.tree.markers =
        (if settings.keepGroups then posts final else (posts final).filter Post.isKept).length ∧
      warnings.length = (warnings.filter (·.report ∉ Post.reports (posts final))).length +
        (Post.reports (posts final)).dedup.length ∧
      ((fragment.front settings).passes = 1 →
        ∀ warning ∈ warnings, warning.report ∈ Post.reports (posts final)) ∧
      ((∀ warning ∈ warnings, warning.report ∈ Post.reports (posts final)) →
        (Post.reports (posts final)).Nodup →
        (settings.keepGroups = true ∨ ∀ post ∈ posts final, post.isKept = true) →
        warnings.length = result.tree.markers) := by
  obtain ⟨visits, final, tour, same, stuck, noted, kept, failures, perm, last, single⟩ :=
    front_tour tolerant succeeded
  intro warnings
  have nodup : (warnings.map Failure.report).Nodup := by
    rw [show warnings = _ from noted]
    exact Progress.nodup_noted List.nodup_nil
  have reported : ∀ report ∈ Post.reports (posts final),
      report ∈ warnings.map Failure.report := by
    intro report member
    obtain ⟨post, posted, failure, failed, rfl⟩ := Post.mem_reports.mp member
    rw [show warnings = _ from last, Progress.report_mem_noted]
    exact .inr (List.mem_map_of_mem
      (perm.mem_iff.mpr (List.mem_filterMap.mpr ⟨post, posted, failed⟩)))
  have split := Progress.length_eq_of_reports nodup reported
  have markers := markers_settle settings fragment final
  rw [← same] at markers
  refine ⟨visits, final, tour, same, noted, ?_, ?_, length_posts final, markers, split, ?_, ?_⟩
  · intro warning member
    rw [show warnings = _ from noted] at member
    exact tour.left_stays ((Progress.mem_noted member).resolve_left List.not_mem_nil)
  · intro post member
    obtain ⟨place, isMarker⟩ := postsAll_inPlace [] [] final post member
    obtain ⟨failure, failed⟩ := Option.isSome_iff_exists.mp (stuck post member)
    refine ⟨place, isMarker, failure, failed, List.count_eq_one_of_mem nodup ?_⟩
    exact reported _ (Post.mem_reports.mpr ⟨post, member, failure, failed, rfl⟩)
  · intro once warning member
    rw [show warnings = _ from last, single once] at member
    have listed := (Progress.mem_noted member).resolve_left List.not_mem_nil
    obtain ⟨post, posted, failed⟩ := List.mem_filterMap.mp (perm.mem_iff.mp listed)
    exact Post.mem_reports.mpr ⟨post, posted, warning, failed, rfl⟩
  · intro current different shown
    have none : warnings.filter (·.report ∉ Post.reports (posts final)) = [] := by
      simpa using current
    have all : (if settings.keepGroups then posts final else (posts final).filter Post.isKept) =
        posts final := by
      split
      · rfl
      · rename_i dissolved
        exact List.filter_eq_self.mpr (shown.resolve_left dissolved)
    rw [split, none, markers, all, different.dedup, Post.length_reports stuck, List.length_nil,
      Nat.zero_add]

/-- An unknown construct is left, with its head and its block, and has the only warning. -/
theorem front_warnings_unknown :
    ∃ fragment result, read "b::(frob) {} c::(box)" "main.rs" = .ok fragment ∧
      (fragment.front { tolerant := true, keepGroups := true }).result = .ok result ∧
      result.tree.compact = "b :: ( frob ) { } box c" ∧
      (fragment.front { tolerant := true, keepGroups := true }).tolerated.length =
        result.tree.markers ∧
      result.tree.markers = 1 := by
  have run : (read "b::(frob) {} c::(box)" "main.rs").toOption.any fun fragment =>
      (fragment.front { tolerant := true, keepGroups := true }).result.toOption.any fun result =>
        result.tree.compact == "b :: ( frob ) { } box c" && result.tree.markers == 1 &&
          (Post.reports (posts result.children)).Nodup &&
          (fragment.front { tolerant := true, keepGroups := true }).tolerated.all
            (·.report ∈ Post.reports (posts result.children)) := by
    decide +kernel
  obtain ⟨fragment, lexed, run⟩ := exists_ok_of_any run
  obtain ⟨result, succeeded, run⟩ := exists_ok_of_any run
  simp only [Bool.and_eq_true, beq_iff_eq, decide_eq_true_eq, List.all_eq_true] at run
  obtain ⟨⟨⟨printed, markers⟩, different⟩, current⟩ := run
  obtain ⟨_, final, -, same, -, -, -, -, -, -, -, equal⟩ := front_warnings rfl succeeded
  -- the groups are kept, so the working tree after the last pass is the result
  have whole : posts result.children = posts final := by rw [same]; rfl
  rw [whole] at current different
  exact ⟨fragment, result, lexed, succeeded, printed,
    equal current different (.inl rfl), markers⟩

/-- The block of `c::(if)` is followed by an `else` whose branch has no block: the occurrence is
reported and left.  Once `y::(&)` is spliced there is no `else` behind the block any more, and the
next pass splices what the warning says was left.  Of the two warnings for `a::(x::(&))` the first
is as outdated: it tells of the head with the marker in it. -/
theorem front_warnings_outdated :
    (∃ fragment result, read "c::(if) {A} else y::(&)" "main.rs" = .ok fragment ∧
      (fragment.front { tolerant := true }).result = .ok result ∧
      (fragment.front { tolerant := true }).tolerated.length = 1 ∧
      result.tree.markers = 0 ∧ result.tree.compact = "if c { A } & ( else y )") ∧
    ∃ fragment result, read "a::(x::(&))" "main.rs" = .ok fragment ∧
      (fragment.front { tolerant := true }).result = .ok result ∧
      (fragment.front { tolerant := true }).tolerated.length = 2 ∧
      result.tree.markers = 1 ∧ result.tree.compact = "a :: ( & x )" := by
  have rewritten : (read "c::(if) {A} else y::(&)" "main.rs").toOption.any fun fragment =>
      (fragment.front { tolerant := true }).result.toOption.any fun result =>
        (fragment.front { tolerant := true }).tolerated.length == 1 &&
          result.tree.markers == 0 && result.tree.compact == "if c { A } & ( else y )" := by
    decide +kernel
  have reportedTwice : (read "a::(x::(&))" "main.rs").toOption.any fun fragment =>
      (fragment.front { tolerant := true }).result.toOption.any fun result =>
        (fragment.front { tolerant := true }).tolerated.length == 2 &&
          result.tree.markers == 1 && result.tree.compact == "a :: ( & x )" := by
    decide +kernel
  obtain ⟨fragment, lexed, run⟩ := exists_ok_of_any rewritten
  obtain ⟨result, succeeded, run⟩ := exists_ok_of_any run
  obtain ⟨other, lexedOther, runOther⟩ := exists_ok_of_any reportedTwice
  obtain ⟨resultOther, succeededOther, runOther⟩ := exists_ok_of_any runOther
  simp only [Bool.and_eq_true, beq_iff_eq] at run runOther
  exact ⟨⟨fragment, result, lexed, succeeded, run.1.1, run.1.2, run.2⟩,
    ⟨other, resultOther, lexedOther, succeededOther, runOther.1.1, runOther.1.2, runOther.2⟩⟩

end Fragment

end Headfirst
