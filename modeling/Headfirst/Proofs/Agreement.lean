import Headfirst.Proofs.Steps
import Headfirst.Proofs.Sweeps

namespace Headfirst

open Headfirst.Tree

/-! Strict and tolerant runs.  They are in step up to the first malformed occurrence.  There
the strict run stops, and the tolerant one has a warning, which it keeps until its end. -/

namespace Settings

def strict (settings : Settings) : Settings :=
  { settings with tolerant := false }

def lenient (settings : Settings) : Settings :=
  { settings with tolerant := true }

end Settings

namespace Outcome

variable {α β : Type}

def progress : Outcome α → Progress
  | done _ progress => progress
  | stopped _ progress => progress

def IsWarned (outcome : Outcome α) : Prop :=
  outcome.progress.tolerated ≠ []

/-- How a strict outcome goes with a lenient one: they are the same, without a warning, or the
strict one has stopped and the lenient one has a warning. -/
inductive InStep (strict lenient : Outcome α) : Prop where
  | together (same : lenient = strict) (clean : strict.progress.tolerated = [])
  | parted {failure : Failure} {progress : Progress} (stopped : strict = .stopped failure progress)
      (warned : lenient.IsWarned)

theorem IsWarned.bind {outcome : Outcome α} (warned : outcome.IsWarned)
    {next : α → Progress → Outcome β}
    (later : ∀ value after, after.tolerated ≠ [] → (next value after).IsWarned) :
    (outcome.bind next).IsWarned := by
  cases outcome with
  | done value after => exact later value after warned
  | stopped failure after => exact warned

theorem InStep.bind {strict lenient : Outcome α} (inStep : strict.InStep lenient)
    {next nextLenient : α → Progress → Outcome β}
    (clean : ∀ value after, strict = .done value after → after.tolerated = [] →
      (next value after).InStep (nextLenient value after))
    (warned : ∀ value after, after.tolerated ≠ [] → (nextLenient value after).IsWarned) :
    (strict.bind next).InStep (lenient.bind nextLenient) := by
  cases inStep with
  | together same noWarning =>
      subst same
      cases lenient with
      | done value after => exact clean value after rfl noWarning
      | stopped failure after => exact .together rfl noWarning
  | parted stopped warning => exact .parted (by rw [stopped]; rfl) (warning.bind warned)

end Outcome

/-- Work that keeps the warnings there are. -/
def Growing : Progression := fun _ before _ after =>
  before.tolerated <+: after.tolerated

theorem growing_composes : Growing.Composes where
  refl _ _ := List.prefix_refl _
  passDone _ _ _ _ := List.prefix_refl _
  trans first second := List.IsPrefix.trans first second

theorem Outcome.Leads.isWarned {α : Type} {start : List Tree} {before : Progress}
    {place : α → List Tree} {outcome : Outcome α}
    (leads : outcome.Leads Growing start before place) (warned : before.tolerated ≠ []) :
    outcome.IsWarned := by
  have kept : before.tolerated <+: outcome.progress.tolerated := by
    cases outcome with
    | done value after => exact leads
    | stopped failure after =>
        obtain ⟨_, grows⟩ := leads
        exact grows
  intro none
  rw [none, List.prefix_nil] at kept
  exact warned kept

theorem Progress.tolerated_tolerate_ne_nil (progress : Progress) (failure : Failure) :
    (progress.tolerate failure).tolerated ≠ [] := by
  unfold tolerate
  split
  · rename_i known
    intro none
    simp [none] at known
  · simp

namespace Fronting

theorem siblings_growing (settings : Settings) (floor : Nat) (before rest : List Tree)
    (progress : Progress) (start : List Tree) (place : List Tree → List Tree) :
    (siblings settings floor before rest progress).Leads Growing start progress place := by
  have sweeps := siblings_sweeps settings floor before rest progress
  cases scan : siblings settings floor before rest progress with
  | done result after =>
      rw [scan] at sweeps
      obtain ⟨moves, last, -, -, -, told⟩ := sweeps
      change progress.tolerated <+: after.tolerated
      rw [told.tolerated]
      exact Progress.prefix_noted ..
  | stopped failure after =>
      rw [scan] at sweeps
      obtain ⟨moves, last, -, told⟩ := sweeps
      refine ⟨start, ?_⟩
      change progress.tolerated <+: after.tolerated
      rw [told.tolerated]
      exact Progress.prefix_noted ..

variable (settings : Settings)

theorem pass_growing :
    (∀ trees progress, progress.tolerated ≠ [] → (sequence settings trees progress).IsWarned) ∧
    ∀ trees progress, progress.tolerated ≠ [] → (below settings trees progress).IsWarned := by
  obtain ⟨sequences, belows⟩ := pass_leads growing_composes fun trees progress frames =>
    siblings_growing settings 0 [] trees progress (Frame.fill frames trees) (Frame.fill frames)
  exact ⟨fun trees progress => (sequences trees progress []).isWarned,
    fun trees progress => (belows trees progress [] []).isWarned⟩

theorem fixpoint_growing (span : Span) (pass markers : Nat) (trees : List Tree)
    (progress : Progress) (warned : progress.tolerated ≠ []) :
    (fixpoint settings span pass markers trees progress).IsWarned :=
  (fixpoint_leads growing_composes
    (fun trees progress frames => siblings_growing settings 0 [] trees progress
      (Frame.fill frames trees) (Frame.fill frames)) span pass markers trees progress).isWarned
    warned

theorem siblings_inStep (floor : Nat) (before rest : List Tree) (progress : Progress)
    (clean : progress.tolerated = []) :
    (siblings settings.strict floor before rest progress).InStep
      (siblings settings.lenient floor before rest progress) := by
  fun_induction siblings settings.strict floor before rest progress with
  | case1 floor before progress => exact .together siblings_nil clean
  | case2 floor before tree after progress isMarker site reach recorded failure resolved tolerant => contradiction
  | case3 floor before tree after progress isMarker site reach recorded failure resolved strict =>
      refine .parted rfl ?_
      rw [siblings_leave rfl isMarker resolved]
      exact (siblings_growing settings.lenient _ _ _ _ [] id).isWarned
        (Progress.tolerated_tolerate_ne_nil _ failure)
  | case4 floor before tree after progress isMarker site reach recorded occurrence resolved counted beyond =>
      exact .together (siblings_exceed isMarker resolved beyond) clean
  | case5 floor before tree after progress isMarker site reach recorded occurrence resolved counted within replacement ih =>
      have step := @siblings_splice settings.lenient floor before after tree progress occurrence
        isMarker resolved (Int.not_lt.mp within)
      rw [step]
      exact ih clean
  | case6 floor before tree after progress noMarker ih =>
      rw [siblings_skip (by simpa using noMarker)]
      exact ih clean

theorem pass_inStep :
    (∀ trees progress, progress.tolerated = [] →
      (sequence settings.strict trees progress).InStep
        (sequence settings.lenient trees progress)) ∧
    ∀ trees progress, progress.tolerated = [] →
      (below settings.strict trees progress).InStep (below settings.lenient trees progress) := by
  obtain ⟨-, warnedBelow⟩ := pass_growing settings.lenient
  apply pass_induction
  case scan =>
      intro trees ih progress clean
      rw [sequence_eq, sequence_eq]
      refine (siblings_inStep settings 0 [] trees progress clean).bind ?_ warnedBelow
      intro scanned between done clean
      have smaller := sizeAll_siblings_start done
      exact ih scanned smaller between clean
  case nil =>
      intro progress clean
      rw [below_nil, below_nil]
      exact .together rfl clean
  case leaf =>
      intro token trees ih progress clean
      rw [below_leaf, below_leaf]
      exact (ih progress clean).bind (fun _ _ _ clean => .together rfl clean)
        fun _ _ warned => warned
  case group =>
      intro bracket children trees ihInside ihRight progress clean
      rw [below_group, below_group]
      refine (ihInside progress clean).bind ?_ ?_
      · intro inner between done clean
        exact (ihRight between clean).bind (fun _ _ _ clean => .together rfl clean)
          fun _ _ warned => warned
      · intro inner between warned
        exact (warnedBelow trees between warned).bind fun _ _ warned => warned

theorem fixpoint_inStep (span : Span) (pass markers : Nat) (trees : List Tree)
    (progress : Progress) (clean : progress.tolerated = []) :
    (fixpoint settings.strict span pass markers trees progress).InStep
      (fixpoint settings.lenient span pass markers trees progress) := by
  by_cases spent : settings.maxPasses ≤ pass
  · rw [fixpoint_spent settings.strict spent, fixpoint_spent settings.lenient spent]
    exact .together rfl clean
  · rw [fixpoint_eq settings.strict spent, fixpoint_eq settings.lenient spent]
    refine ((pass_inStep settings).1 trees progress clean).bind ?_ ?_
    · intro result after done clean
      simp only
      split
      · exact .together rfl clean
      · split
        · exact .together rfl clean
        · split
          · exact .together rfl clean
          · exact fixpoint_inStep span (pass + 1) (markersAll result) result _ clean
    · intro result after warned
      simp only
      split
      · exact warned
      · split
        · exact warned
        · split
          · exact warned
          · exact fixpoint_growing settings.lenient _ _ _ _ _ warned
termination_by (settings.maxPasses - pass).toNat

end Fronting

/-- A strict run succeeds if and only if the tolerant one succeeds without a warning, and then
the two runs are the same: result, splices, passes and events. -/
theorem Fragment.front_strict_iff_lenient (settings : Settings) (fragment : Fragment) :
    ((∃ result, (fragment.front settings.strict).result = .ok result) ↔
      (∃ result, (fragment.front settings.lenient).result = .ok result) ∧
        (fragment.front settings.lenient).tolerated = []) ∧
    ∀ result, (fragment.front settings.strict).result = .ok result →
      fragment.front settings.lenient = fragment.front settings.strict := by
  by_cases deep : Fronting.maxDepth < fragment.tree.depth
  · rw [front_tooDeep deep, front_tooDeep deep]
    exact ⟨by simp, fun _ _ => rfl⟩
  · have shallow := Nat.not_lt.mp deep
    have inStep := Fronting.fixpoint_inStep settings fragment.tree.span 0
      (markersAll fragment.children) fragment.children fragment.begun rfl
    cases inStep with
    | together same clean =>
        cases loop : Fronting.fixpoint settings.strict fragment.tree.span 0
            (markersAll fragment.children) fragment.children fragment.begun with
        | stopped failure after =>
            rw [loop] at same
            rw [front_of_stopped shallow loop, front_of_stopped shallow same]
            exact ⟨by simp, fun _ _ => rfl⟩
        | done value after =>
            obtain ⟨trees, number⟩ := value
            rw [loop] at same clean
            rw [front_of_done shallow loop, front_of_done shallow same]
            exact ⟨⟨fun succeeded => ⟨succeeded, clean⟩, fun succeeded => succeeded.1⟩,
              fun _ _ => rfl⟩
    | parted stopped warned =>
        rw [front_of_stopped shallow stopped]
        refine ⟨⟨by simp, ?_⟩, by simp⟩
        rintro ⟨⟨result, succeeded⟩, none⟩
        cases loop : Fronting.fixpoint settings.lenient fragment.tree.span 0
            (markersAll fragment.children) fragment.children fragment.begun with
        | stopped failure after =>
            rw [front_of_stopped shallow loop] at succeeded
            contradiction
        | done value after =>
            rw [front_of_done shallow loop] at none
            rw [loop] at warned
            exact absurd none warned

end Headfirst
