import Headfirst.Proofs.Floors
import Headfirst.Proofs.Pinned
import Headfirst.Proofs.Posts
import Headfirst.Proofs.Steps

namespace Headfirst.Fronting

open Headfirst.Tree

/-! Passes that make no splice.  A pass makes none if and only if no marker can be resolved, and
then it leaves every marker as it is. -/

variable {settings : Settings}

theorem splices_le_siblings {floor : Nat} {before rest result : List Tree}
    {progress after : Progress}
    (done : siblings settings floor before rest progress = .done result after) :
    progress.splices ≤ after.splices := by
  fun_induction siblings settings floor before rest progress with
  | case1 =>
      cases done
      exact Nat.le_refl _
  | case2 floor before tree after' progress isMarker site reach recorded failure resolved tolerant ih =>
      have := ih done
      rwa [Progress.splices_tolerate] at this
  | case3 => contradiction
  | case4 => contradiction
  | case5 floor before tree after' progress isMarker site reach recorded occurrence resolved counted within replacement ih =>
      have grown : counted.splices ≤ after.splices := ih done
      have count : counted.splices = progress.splices + 1 := rfl
      omega
  | case6 floor before tree after' progress noMarker ih => exact ih done

/-- Where no marker can be resolved, a tolerant scan changes nothing. -/
theorem siblings_stuck (tolerant : settings.tolerant = true) {floor : Nat}
    {before rest : List Tree} (guarded : Guarded floor before rest)
    (stuck : ∀ site ∈ sites before rest, site.failure?.isSome = true) (progress : Progress) :
    ∃ after, siblings settings floor before rest progress =
        .done (before.reverse ++ rest) after ∧
      after.splices = progress.splices ∧
      after.tolerated =
        Progress.noted progress.tolerated ((sites before rest).filterMap Site.failure?) := by
  induction rest generalizing floor before progress with
  | nil =>
      rw [siblings_nil]
      exact ⟨progress, by rw [List.append_nil], rfl, rfl⟩
  | cons tree after ih =>
      have joined : before.reverse ++ tree :: after = (tree :: before).reverse ++ after := by simp
      rw [joined]
      by_cases isMarker : Marker.test tree after.head? = true
      · rw [sites, if_pos isMarker] at stuck ⊢
        obtain ⟨fails, resolves⟩ := Site.failure?_of_resolve (guarded.reach_eq_zero isMarker)
        cases resolved : Site.resolve ⟨before, tree, after⟩ (before.length - floor) with
        | ok occurrence =>
            have failed := stuck _ List.mem_cons_self
            rw [resolves occurrence resolved] at failed
            contradiction
        | error failure =>
            obtain ⟨last, same, splices, kept⟩ := ih (.leave isMarker before)
              (fun site member => stuck site (List.mem_cons_of_mem _ member))
              ((progress.record (Site.events ⟨before, tree, after⟩
                (before.length - floor))).tolerate failure)
            rw [siblings_leave tolerant isMarker resolved, same]
            refine ⟨last, rfl, by simpa using splices, ?_⟩
            rw [kept, Progress.tolerated_tolerate, Progress.tolerated_record,
              ← Progress.noted_append, List.singleton_append, List.singleton_append,
              List.filterMap_cons_some (fails failure resolved)]
      · rw [Bool.not_eq_true] at isMarker
        rw [siblings_skip isMarker]
        rw [sites, isMarker] at stuck ⊢
        exact ih (guarded.skip isMarker) stuck progress

/-- A scan that makes no splice has met no marker that can be resolved. -/
theorem stuck_of_siblings {floor : Nat} {before rest result : List Tree} {progress after : Progress}
    (guarded : Guarded floor before rest)
    (done : siblings settings floor before rest progress = .done result after)
    (still : after.splices = progress.splices) :
    ∀ site ∈ sites before rest, site.failure?.isSome = true := by
  fun_induction siblings settings floor before rest progress with
  | case1 => simp [sites]
  | case2 floor before tree after' progress isMarker site reach recorded failure resolved tolerant ih =>
      have later := ih (.leave isMarker before) done (by simpa [recorded] using still)
      rw [sites, if_pos isMarker]
      intro other member
      rcases List.mem_cons.mp member with rfl | member
      · rw [(Site.failure?_of_resolve (guarded.reach_eq_zero isMarker)).1 failure resolved]
        rfl
      · exact later other member
  | case3 => contradiction
  | case4 => contradiction
  | case5 floor before tree after' progress isMarker site reach recorded occurrence resolved counted within replacement ih =>
      have grown : (counted.record [.spliced occurrence replacement]).splices ≤ after.splices :=
        splices_le_siblings done
      have count : (counted.record [.spliced occurrence replacement]).splices =
          progress.splices + 1 := rfl
      omega
  | case6 floor before tree after' progress noMarker ih =>
      rw [Bool.not_eq_true] at noMarker
      rw [sites, noMarker]
      exact ih (guarded.skip noMarker) done still

/-- Where no marker can be resolved, a tolerant pass changes nothing, and its warnings are the
failures of the markers. -/
theorem pass_stuck (tolerant : settings.tolerant = true) :
    (∀ trees frames, (∀ post ∈ postsAll frames [] trees, post.site.failure?.isSome = true) →
      ∀ progress, ∃ after failures, sequence settings trees progress = .done trees after ∧
        after.splices = progress.splices ∧
        failures.Perm ((postsAll frames [] trees).filterMap (·.site.failure?)) ∧
        after.tolerated = Progress.noted progress.tolerated failures) ∧
    ∀ trees frames before,
      (∀ post ∈ postsInside frames before trees, post.site.failure?.isSome = true) →
      ∀ progress, ∃ after failures, below settings trees progress = .done trees after ∧
        after.splices = progress.splices ∧
        failures.Perm ((postsInside frames before trees).filterMap (·.site.failure?)) ∧
        after.tolerated = Progress.noted progress.tolerated failures := by
  apply pass_induction
  case scan =>
      intro trees ih frames stuck progress
      have parts := postsAll_perm frames [] trees
      obtain ⟨between, scan, splices, kept⟩ := siblings_stuck tolerant (.start trees)
        (fun site member => stuck ⟨frames, site⟩ (parts.mem_iff.mpr
          (List.mem_append_left _ (List.mem_map_of_mem member)))) progress
      obtain ⟨after, failures, inside, splicesInside, same, keptInside⟩ :=
        ih trees (Nat.le_refl _) frames []
          (fun post member => stuck post (parts.mem_iff.mpr (List.mem_append_right _ member))) between
      rw [List.reverse_nil, List.nil_append] at scan
      rw [sequence_eq, scan]
      refine ⟨after, (sites [] trees).filterMap Site.failure? ++ failures, inside,
        splicesInside.trans splices, ?_, ?_⟩
      · refine .trans ?_ (parts.filterMap _).symm
        rw [List.filterMap_append, List.filterMap_map]
        exact .append_left _ same
      · rw [keptInside, kept, Progress.noted_append]
  case nil =>
      intro frames before stuck progress
      exact ⟨progress, [], below_nil settings progress, rfl, .nil, rfl⟩
  case leaf =>
      intro token trees ih frames before stuck progress
      obtain ⟨after, failures, same, rest⟩ := ih frames (.leaf token :: before) stuck progress
      refine ⟨after, failures, ?_, rest⟩
      rw [below_leaf, same]
      rfl
  case group =>
      intro bracket children trees ihInside ihRight frames before stuck progress
      rw [postsInside, postsBelow] at stuck ⊢
      obtain ⟨between, inner, inside, splicesInside, sameInside, keptInside⟩ :=
        ihInside _ (fun post member => stuck post (List.mem_append_left _ member)) progress
      obtain ⟨after, outer, right, splicesRight, sameRight, keptRight⟩ :=
        ihRight frames (.group bracket children :: before)
          (fun post member => stuck post (List.mem_append_right _ member)) between
      rw [below_group, inside]
      simp only [Outcome.bind]
      rw [right]
      refine ⟨after, inner ++ outer, rfl, splicesRight.trans splicesInside, ?_, ?_⟩
      · rw [List.filterMap_append]
        exact sameInside.append sameRight
      · rw [keptRight, keptInside, Progress.noted_append]

theorem splices_le_below {trees result : List Tree} {progress after : Progress}
    (done : below settings trees progress = .done result after) :
    progress.splices ≤ after.splices := by
  have follows := (pass_follows settings).2 trees progress [] []
  rw [done] at follows
  obtain ⟨splices, -, counted⟩ := follows
  omega

theorem splices_le_sequence {trees result : List Tree} {progress after : Progress}
    (done : sequence settings trees progress = .done result after) :
    progress.splices ≤ after.splices := by
  obtain ⟨splices, -, counted⟩ := sequence_round done
  omega

theorem splices_le_fixpoint {span : Span} {pass markers : Nat} {trees final : List Tree}
    {number : Nat} {progress after : Progress}
    (done : fixpoint settings span pass markers trees progress = .done (final, number) after) :
    progress.splices ≤ after.splices := by
  fun_induction fixpoint settings span pass markers trees progress with
  | case1 => contradiction
  | case2 => contradiction
  | case3 pass markers trees progress room result between made splices recorded none =>
      have counted := splices_le_sequence made
      simp only [Outcome.done.injEq] at done
      rw [← done.2]
      exact counted
  | case4 => contradiction
  | case5 pass markers trees progress room result between made splices recorded remaining some exact none =>
      have counted := splices_le_sequence made
      simp only [Outcome.done.injEq] at done
      rw [← done.2]
      exact counted
  | case6 pass markers trees progress room result between made splices recorded remaining some exact more ih =>
      exact Nat.le_trans (splices_le_sequence made) (ih done)

/-- A tolerant pass that makes no splice has met no marker that can be resolved. -/
theorem stuck_of_pass (tolerant : settings.tolerant = true) :
    (∀ trees frames progress result after,
      sequence settings trees progress = .done result after →
      after.splices = progress.splices →
      ∀ post ∈ postsAll frames [] trees, post.site.failure?.isSome = true) ∧
    ∀ trees frames before progress result after,
      below settings trees progress = .done result after →
      after.splices = progress.splices →
      ∀ post ∈ postsInside frames before trees, post.site.failure?.isSome = true := by
  apply pass_induction
  case scan =>
      intro trees ih frames progress result after done still post member
      rw [sequence_eq, Outcome.bind_eq_done] at done
      obtain ⟨scanned, between, scan, inside⟩ := done
      have first := splices_le_siblings scan
      have second := splices_le_below inside
      have own := stuck_of_siblings (.start trees) scan (by omega)
      obtain ⟨between', same, -⟩ := siblings_stuck tolerant (.start trees) own progress
      rw [scan] at same
      cases same
      rw [(postsAll_perm frames [] trees).mem_iff, List.mem_append, List.mem_map] at member
      rcases member with ⟨site, member, rfl⟩ | member
      · exact own site member
      · exact ih trees (Nat.le_refl _) frames [] between result after inside (by omega) post member
  case nil => simp [postsInside]
  case leaf =>
      intro token trees ih frames before progress result after done still
      rw [below_leaf, Outcome.bind_eq_done] at done
      obtain ⟨right, between, right', same⟩ := done
      cases same
      exact ih frames (.leaf token :: before) progress right after right' still
  case group =>
      intro bracket children trees ihInside ihRight frames before progress result after done still
        post member
      rw [below_group, Outcome.bind_eq_done] at done
      obtain ⟨inner, between, inside, done⟩ := done
      rw [Outcome.bind_eq_done] at done
      obtain ⟨outer, last, right, same⟩ := done
      cases same
      have first := splices_le_sequence inside
      have second := splices_le_below right
      rw [postsInside, postsBelow, List.mem_append] at member
      rcases member with member | member
      · exact ihInside _ progress inner between inside (by omega) post member
      · exact ihRight frames _ between outer after right (by omega) post member

/-! A pass that leaves an occurrence untouched leaves a marker. -/

/-- The marker of an occurrence that a scan leaves untouched is still one at its end. -/
theorem marked_siblings {floor : Nat} {before rest result : List Tree}
    {progress after : Progress} (ready : Ready floor before rest)
    (done : siblings settings floor before rest progress = .done result after)
    (marked : ¬ Passable rest.head? before.reverse ∨ after.tolerated ≠ progress.tolerated) :
    ¬ Passable none result := by
  fun_induction siblings settings floor before rest progress with
  | case1 =>
      cases done
      exact marked.resolve_right (by simp)
  | case2 floor before tree rest progress isMarker site reach recorded failure resolved tolerant ih =>
      refine ih (.tolerate isMarker before) done (.inl ?_)
      rw [List.reverse_cons, passable_append]
      simp [Passable, isMarker]
  | case3 => contradiction
  | case4 => contradiction
  | case5 floor before tree rest progress isMarker site reach recorded occurrence resolved counted within replacement ih =>
      refine ih (ready.splice resolved settings.parenthesize) done (marked.imp_left ?_)
      intro earlier passable
      rw [List.reverse_cons, passable_append] at passable
      exact earlier (Site.passable_of_replacement ready.settled resolved _ passable.1)
  | case6 floor before tree rest progress noMarker ih =>
      rw [Bool.not_eq_true] at noMarker
      refine ih (ready.skip noMarker) done (marked.imp_left ?_)
      intro earlier passable
      rw [List.reverse_cons, passable_append] at passable
      exact earlier passable.1

/-- A pass that leaves an occurrence untouched leaves a marker. -/
theorem pass_marked :
    (∀ trees progress result after, sequence settings trees progress = .done result after →
      markersAll result = 0 → after.tolerated = progress.tolerated) ∧
    ∀ trees progress result after, below settings trees progress = .done result after →
      (∀ tree ∈ result, tree.markers = 0) → after.tolerated = progress.tolerated := by
  apply pass_induction
  case scan =>
      intro trees ih progress result after done unmarked
      rw [sequence_eq, Outcome.bind_eq_done] at done
      obtain ⟨scanned, between, scan, rest⟩ := done
      have smaller := sizeAll_siblings_start scan
      rw [← markersBefore_none, markersBefore_eq_zero] at unmarked
      have passable : Passable none scanned :=
        passable_of_shell (below_shell rest).symm unmarked.1
      have quiet : between.tolerated = progress.tolerated :=
        Classical.byContradiction fun told =>
          marked_siblings (.start trees) scan (.inr told) passable
      exact (ih scanned smaller between result after rest unmarked.2).trans quiet
  case nil =>
      intro progress result after done unmarked
      rw [below_nil] at done
      cases done
      rfl
  case leaf =>
      intro token trees ih progress result after done unmarked
      rw [below_leaf, Outcome.bind_eq_done] at done
      obtain ⟨right, between, finished, whole⟩ := done
      cases whole
      exact ih progress right after finished
        fun tree member => unmarked tree (List.mem_cons_of_mem _ member)
  case group =>
      intro bracket children trees ihInside ihRight progress result after done unmarked
      rw [below_group, Outcome.bind_eq_done] at done
      obtain ⟨inner, between, finishedInside, rest⟩ := done
      rw [Outcome.bind_eq_done] at rest
      obtain ⟨right, last, finished, whole⟩ := rest
      cases whole
      have inside := ihInside progress inner between finishedInside
        (unmarked _ List.mem_cons_self)
      have right := ihRight between right after finished
        fun tree member => unmarked tree (List.mem_cons_of_mem _ member)
      exact right.trans inside

theorem lt_number {span : Span} {pass markers : Nat} {trees final : List Tree} {number : Nat}
    {progress after : Progress}
    (done : fixpoint settings span pass markers trees progress = .done (final, number) after) :
    pass < number := by
  fun_induction fixpoint settings span pass markers trees progress with
  | case1 => contradiction
  | case2 => contradiction
  | case3 =>
      simp only [Outcome.done.injEq, Prod.mk.injEq] at done
      omega
  | case4 => contradiction
  | case5 =>
      simp only [Outcome.done.injEq, Prod.mk.injEq] at done
      omega
  | case6 pass markers trees progress room result between made splices recorded remaining some exact more ih =>
      have later := ih done
      omega

/-- A tolerant run that comes to its end leaves no marker that can be resolved, and the failures
of those that are left are the warnings of its last pass. -/
theorem fixpoint_stuck (tolerant : settings.tolerant = true) {span : Span} {pass markers : Nat}
    {trees final : List Tree} {number : Nat} {progress after : Progress}
    (done : fixpoint settings span pass markers trees progress = .done (final, number) after) :
    (∀ post ∈ posts final, post.site.failure?.isSome = true) ∧
      ∃ kept failures, failures.Perm ((posts final).filterMap (·.site.failure?)) ∧
        after.tolerated = Progress.noted kept failures ∧
        (number = pass + 1 → kept = progress.tolerated) := by
  fun_induction fixpoint settings span pass markers trees progress with
  | case1 => contradiction
  | case2 => contradiction
  | case3 pass markers trees progress room result between pass' splices recorded none =>
      simp only [Outcome.done.injEq, Prod.mk.injEq] at done
      obtain ⟨⟨rfl, -⟩, rfl⟩ := done
      have least := splices_le_sequence pass'
      have still : between.splices = progress.splices := by omega
      have stuck := (stuck_of_pass tolerant).1 trees [] progress result between pass' still
      obtain ⟨last, failures, same, -, perm, kept⟩ :=
        (pass_stuck tolerant).1 trees [] stuck progress
      rw [pass'] at same
      cases same
      exact ⟨stuck, progress.tolerated, failures, perm, kept, fun _ => rfl⟩
  | case4 => contradiction
  | case5 pass markers trees progress room result between pass' splices recorded remaining some exact none =>
      simp only [Outcome.done.injEq, Prod.mk.injEq] at done
      obtain ⟨⟨rfl, -⟩, rfl⟩ := done
      have unmarked : posts result = [] := by
        rw [← List.length_eq_zero_iff, length_posts]
        exact none
      rw [unmarked]
      exact ⟨by simp, between.tolerated, [], .nil, rfl,
        fun _ => pass_marked.1 trees progress result between pass' none⟩
  | case6 pass markers trees progress room result between pass' splices recorded remaining some exact more ih =>
      obtain ⟨stuck, kept, failures, perm, last, -⟩ := ih done
      have further := lt_number done
      exact ⟨stuck, kept, failures, perm, last, by omega⟩

end Headfirst.Fronting
