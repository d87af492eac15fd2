import Headfirst.Proofs.Passes

namespace Headfirst.Fronting

open Headfirst.Tree

/-! The single steps of the walk over a fragment, and where it makes none. -/

variable {settings : Settings} {floor : Nat} {before after : List Tree} {tree : Tree}
  {progress : Progress}

theorem siblings_nil :
    siblings settings floor before [] progress = .done before.reverse progress := by
  rw [siblings]

theorem siblings_skip (noMarker : Marker.test tree after.head? = false) :
    siblings settings floor before (tree :: after) progress =
      siblings settings floor (tree :: before) after progress := by
  rw [siblings, noMarker]
  rfl

theorem siblings_skipAll {trees : List Tree} (passable : Passable after.head? trees) :
    siblings settings floor before (trees ++ after) progress =
      siblings settings floor (trees.reverse ++ before) after progress := by
  induction trees generalizing before with
  | nil => rfl
  | cons tree trees ih =>
      have noMarker : Marker.test tree (trees ++ after).head? = false := by
        rw [List.head?_append]
        exact passable.1
      rw [List.cons_append, siblings_skip noMarker, ih passable.2, List.reverse_cons,
        List.append_assoc, List.singleton_append]

def spliced (settings : Settings) (site : Site) (reach : Nat) (occurrence : Occurrence)
    (progress : Progress) : Progress :=
  (progress.record (site.events reach)).count.record
    [.spliced occurrence (occurrence.replacement settings.parenthesize)]

theorem siblings_splice {occurrence : Occurrence} (isMarker : Marker.test tree after.head? = true)
    (resolved : Site.resolve ⟨before, tree, after⟩ (before.length - floor) = .ok occurrence)
    (room : progress.splices + 1 ≤ settings.maxSplices) :
    siblings settings floor before (tree :: after) progress =
      siblings settings floor
        (occurrence.replacement settings.parenthesize :: occurrence.before) occurrence.after
        (spliced settings ⟨before, tree, after⟩ (before.length - floor) occurrence progress) := by
  rw [siblings, if_pos isMarker]
  simp only
  split
  · rename_i failure failed
    rw [resolved] at failed
    contradiction
  · rename_i other found
    rw [resolved] at found
    cases found
    rw [if_neg (by simp only [Progress.count, Progress.record]; omega)]
    rfl

/-- A malformed occurrence in a tolerant scan. -/
theorem siblings_leave {failure : Failure} (tolerant : settings.tolerant = true)
    (isMarker : Marker.test tree after.head? = true)
    (failed : Site.resolve ⟨before, tree, after⟩ (before.length - floor) = .error failure) :
    siblings settings floor before (tree :: after) progress =
      siblings settings (untouchedEnd before.length after) (tree :: before) after
        ((progress.record (Site.events ⟨before, tree, after⟩ (before.length - floor))).tolerate
          failure) := by
  rw [siblings, if_pos isMarker]
  simp only
  split
  · rename_i other found
    rw [failed] at found
    cases found
    rw [if_pos tolerant]
  · rename_i occurrence found
    rw [failed] at found
    contradiction

/-- A malformed occurrence in a strict scan. -/
theorem siblings_stop {failure : Failure} (strict : settings.tolerant = false)
    (isMarker : Marker.test tree after.head? = true)
    (failed : Site.resolve ⟨before, tree, after⟩ (before.length - floor) = .error failure) :
    siblings settings floor before (tree :: after) progress =
      .stopped failure
        (progress.record (Site.events ⟨before, tree, after⟩ (before.length - floor))) := by
  rw [siblings, if_pos isMarker]
  simp only
  split
  · rename_i other found
    rw [failed] at found
    cases found
    rw [strict, if_neg Bool.false_ne_true]
  · rename_i occurrence found
    rw [failed] at found
    contradiction

/-- A splice beyond the bound. -/
theorem siblings_exceed {occurrence : Occurrence} (isMarker : Marker.test tree after.head? = true)
    (resolved : Site.resolve ⟨before, tree, after⟩ (before.length - floor) = .ok occurrence)
    (spent : settings.maxSplices < progress.splices + 1) :
    siblings settings floor before (tree :: after) progress =
      .stopped ⟨.tooManySplices settings.maxSplices, tree.span, none⟩
        (progress.record (Site.events ⟨before, tree, after⟩ (before.length - floor))).count := by
  rw [siblings, if_pos isMarker]
  simp only
  split
  · rename_i failure failed
    rw [resolved] at failed
    contradiction
  · exact if_pos spent

theorem siblings_still {trees : List Tree} (passable : Passable none trees) :
    siblings settings floor [] trees progress = .done trees progress := by
  have scan : siblings settings floor [] (trees ++ []) progress =
      siblings settings floor (trees.reverse ++ []) [] progress := siblings_skipAll passable
  rw [List.append_nil, siblings_nil, List.append_nil, List.reverse_reverse] at scan
  exact scan

/-- Below a sequence a pass changes only what the groups hold. -/
theorem below_shell {trees result : List Tree} {after : Progress}
    (done : below settings trees progress = .done result after) :
    trees.map shell = result.map shell := by
  induction trees generalizing progress result with
  | nil =>
      rw [below_nil] at done
      cases done
      rfl
  | cons tree trees ih =>
      cases tree with
      | leaf token =>
          rw [below_leaf, Outcome.bind_eq_done] at done
          obtain ⟨right, between, finished, whole⟩ := done
          cases whole
          rw [List.map_cons, List.map_cons, ih finished]
      | group bracket children =>
          rw [below_group, Outcome.bind_eq_done] at done
          obtain ⟨inner, between, inside, rest⟩ := done
          rw [Outcome.bind_eq_done] at rest
          obtain ⟨right, last, finished, whole⟩ := rest
          cases whole
          rw [List.map_cons, List.map_cons, ih finished, shell, shell]

/-- A pass changes nothing where there is no marker. -/
theorem pass_still (settings : Settings) :
    (∀ trees, markersAll trees = 0 → ∀ progress,
      sequence settings trees progress = .done trees progress) ∧
    ∀ trees, (∀ tree ∈ trees, tree.markers = 0) → ∀ progress,
      below settings trees progress = .done trees progress := by
  apply pass_induction
  case scan =>
      intro trees ih unmarked progress
      rw [← markersBefore_none, markersBefore_eq_zero] at unmarked
      rw [sequence_eq, siblings_still unmarked.1]
      exact ih trees (Nat.le_refl _) unmarked.2 progress
  case nil =>
      intro unmarked progress
      exact below_nil settings progress
  case leaf =>
      intro token trees ih unmarked progress
      rw [below_leaf, ih fun tree member => unmarked tree (List.mem_cons_of_mem _ member)]
      rfl
  case group =>
      intro bracket children trees ihInside ihRight unmarked progress
      rw [below_group, ihInside (unmarked _ List.mem_cons_self)]
      simp only [Outcome.bind]
      rw [ihRight fun tree member => unmarked tree (List.mem_cons_of_mem _ member)]

theorem sequence_still {trees : List Tree} (unmarked : markersAll trees = 0)
    (progress : Progress) : sequence settings trees progress = .done trees progress :=
  (pass_still settings).1 trees unmarked progress

theorem below_still {trees : List Tree} (unmarked : ∀ tree ∈ trees, tree.markers = 0)
    (progress : Progress) : below settings trees progress = .done trees progress :=
  (pass_still settings).2 trees unmarked progress

theorem below_append {left right result : List Tree} {after : Progress}
    (unmarked : ∀ tree ∈ left, tree.markers = 0)
    (done : below settings right progress = .done result after) :
    below settings (left ++ right) progress = .done (left ++ result) after := by
  induction left with
  | nil => exact done
  | cons tree left ih =>
      have later := ih fun tree member => unmarked tree (List.mem_cons_of_mem _ member)
      cases tree with
      | leaf token =>
          rw [List.cons_append, below_leaf, later]
          rfl
      | group bracket children =>
          have inside : markersAll children = 0 := unmarked _ List.mem_cons_self
          rw [List.cons_append, below_group, sequence_still inside]
          simp only [Outcome.bind, later, List.cons_append]

theorem sequence_around {left right trees result : List Tree} {after : Progress}
    (bracket : Bracket) (unmarked : markersAll (left ++ .group bracket [] :: right) = 0)
    (done : sequence settings trees progress = .done result after) :
    sequence settings (left ++ .group bracket trees :: right) progress =
      .done (left ++ .group bracket result :: right) after := by
  rw [← markersBefore_none, markersBefore_eq_zero] at unmarked
  obtain ⟨passable, inside⟩ := unmarked
  have passableNow : Passable none (left ++ .group bracket trees :: right) :=
    passable_of_shell (by simp [shell]) passable
  have rightStill : below settings right after = .done right after :=
    below_still (fun tree member => inside tree (by simp [member])) after
  rw [sequence_eq, siblings_still passableNow]
  refine below_append (fun tree member => inside tree (by simp [member])) ?_
  rw [below_group, done]
  simp only [Outcome.bind, rightStill]

/-- A pass over a fragment whose markers lie in one of its sequences. -/
theorem sequence_fill {frames : List Frame} {trees result : List Tree} {after : Progress}
    (unmarked : Frame.markersAround frames = 0)
    (done : sequence settings trees progress = .done result after) :
    sequence settings (Frame.fill frames trees) progress =
      .done (Frame.fill frames result) after := by
  induction frames generalizing trees result with
  | nil => exact done
  | cons frame frames ih =>
      rw [Frame.markersAround, Nat.add_eq_zero_iff] at unmarked
      have here : markersAll (frame.before ++ .group frame.bracket [] :: frame.after) = 0 := by
        rw [markersAll_around, markersAll, Nat.add_zero]
        exact unmarked.1
      exact ih unmarked.2 (sequence_around frame.bracket here done)

theorem fixpoint_spent (settings : Settings) {span : Span} {pass markers : Nat} {trees : List Tree}
    {progress : Progress} (spent : settings.maxPasses ≤ pass) :
    fixpoint settings span pass markers trees progress =
      .stopped ⟨.noFixpoint pass settings.maxPasses, span, none⟩ progress := by
  rw [fixpoint, if_pos spent]

/-- What a pass over a fragment is followed by. -/
theorem fixpoint_eq (settings : Settings) {span : Span} {pass markers : Nat} {trees : List Tree} {progress : Progress}
    (room : ¬ settings.maxPasses ≤ pass) :
    fixpoint settings span pass markers trees progress =
      (sequence settings trees progress).bind fun result after =>
        let splices := after.splices - progress.splices
        let after := after.record [.passDone (pass + 1) splices]
        let remaining := markersAll result
        if splices = 0 then .done (result, pass + 1) after
        else if remaining + splices ≠ markers then
          .stopped ⟨.markersDrifted markers remaining splices, span, none⟩ after
        else if remaining = 0 then .done (result, pass + 1) after
        else fixpoint settings span (pass + 1) remaining result after := by
  rw [fixpoint, if_neg room]
  cases sequence settings trees progress <;> rfl

theorem fixpoint_once {trees result : List Tree} {after : Progress} (span : Span)
    (room : 0 < settings.maxPasses)
    (done : sequence settings trees progress = .done result after)
    (unmarked : markersAll result = 0) :
    fixpoint settings span 0 (markersAll trees) trees progress =
      .done (result, 1)
        (after.record [.passDone 1 (after.splices - progress.splices)]) := by
  have passes : ¬ settings.maxPasses ≤ ((0 : Nat) : Int) := Int.not_le.mpr room
  have exact := markersAll_sequence done
  rw [unmarked, Nat.zero_add] at exact
  rw [fixpoint, if_neg passes, done]
  simp only [exact, unmarked, Nat.zero_add, ne_eq, not_true_eq_false, if_false, if_true, ite_self]

end Headfirst.Fronting

namespace Headfirst.Fragment

open Headfirst.Tree Headfirst.Fronting

variable {settings : Settings} {fragment result : Fragment}

theorem front_once {result : List Tree} {after : Progress}
    (shallow : fragment.tree.depth ≤ maxDepth) (room : 0 < settings.maxPasses)
    (done : sequence settings fragment.children fragment.begun = .done result after)
    (unmarked : markersAll result = 0) :
    (fragment.front settings).result =
        .ok { fragment with children := settle settings result } ∧
      (fragment.front settings).passes = 1 ∧ (fragment.front settings).splices = after.splices ∧
      (fragment.front settings).tolerated = after.tolerated := by
  have finished := fixpoint_once fragment.tree.span room done unmarked
  rw [front_of_done shallow finished]
  exact ⟨rfl, rfl, rfl, rfl⟩

/-- A fragment without markers is its own result, up to its invisible groups. -/
theorem front_still (shallow : fragment.tree.depth ≤ maxDepth) (room : 0 < settings.maxPasses)
    (unmarked : markersAll fragment.children = 0) :
    (fragment.front settings).result =
        .ok { fragment with children := settle settings fragment.children } ∧
      (fragment.front settings).passes = 1 ∧ (fragment.front settings).splices = 0 ∧
      (fragment.front settings).tolerated = [] :=
  front_once shallow room (sequence_still unmarked _) unmarked

theorem front_stopped {failure : Failure} {after : Progress}
    (shallow : fragment.tree.depth ≤ maxDepth) (room : 0 < settings.maxPasses)
    (stops : sequence settings fragment.children fragment.begun = .stopped failure after) :
    fragment.front settings = stopped failure after := by
  have passes : ¬ settings.maxPasses ≤ ((0 : Nat) : Int) := Int.not_le.mpr room
  refine front_of_stopped shallow ?_
  rw [fixpoint, if_neg passes, stops]

theorem front_noPass (shallow : fragment.tree.depth ≤ maxDepth) (spent : settings.maxPasses ≤ 0) :
    fragment.front settings =
      stopped ⟨.noFixpoint 0 settings.maxPasses, fragment.tree.span, none⟩ fragment.begun := by
  refine front_of_stopped shallow ?_
  rw [fixpoint, if_pos (by simpa using spent)]

/-- A run that succeeds has carried its first pass through. -/
theorem front_admitted (succeeded : (fragment.front settings).result = .ok result) :
    fragment.tree.depth ≤ maxDepth ∧ 0 < settings.maxPasses ∧ ∃ trees after,
      sequence settings fragment.children fragment.begun = .done trees after := by
  have shallow : fragment.tree.depth ≤ maxDepth := by
    refine Nat.not_lt.mp fun deep => ?_
    rw [front_tooDeep deep] at succeeded
    contradiction
  have room : 0 < settings.maxPasses := by
    refine Int.not_le.mp fun spent => ?_
    rw [front_noPass shallow spent] at succeeded
    contradiction
  refine ⟨shallow, room, ?_⟩
  cases pass : sequence settings fragment.children fragment.begun with
  | stopped failure after =>
      rw [front_stopped shallow room pass] at succeeded
      contradiction
  | done trees after => exact ⟨trees, after, rfl⟩

end Headfirst.Fragment
