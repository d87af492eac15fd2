import Headfirst.Proofs.Mending
import Headfirst.Proofs.Reading
import Headfirst.Proofs.Standstill

namespace Headfirst

open Headfirst.Tree Headfirst.Fronting

/-! Tolerant runs, and a second run over their result. -/

namespace Fragment

variable {settings : Settings} {fragment result : Fragment}

/-- A run that succeeds, with the working tree after its last pass. -/
theorem front_final (succeeded : (fragment.front settings).result = .ok result) :
    ∃ final number after, fixpoint settings fragment.tree.span 0 (markersAll fragment.children)
        fragment.children fragment.begun = .done (final, number) after ∧
      result = { fragment with children := settle settings final } ∧
      (fragment.front settings).splices = after.splices ∧
      (fragment.front settings).tolerated = after.tolerated ∧
      (fragment.front settings).passes = number := by
  obtain ⟨shallow, -⟩ := front_admitted succeeded
  cases loop : fixpoint settings fragment.tree.span 0 (markersAll fragment.children)
      fragment.children fragment.begun with
  | stopped failure after =>
      rw [front_of_stopped shallow loop] at succeeded
      contradiction
  | done value after =>
      obtain ⟨final, number⟩ := value
      rw [front_of_done shallow loop] at succeeded ⊢
      cases succeeded
      exact ⟨final, number, after, rfl, rfl, rfl, rfl, rfl⟩

/-- A tolerant run over a fragment none of whose markers can be resolved leaves the fragment as
it is. -/
theorem front_stuck (tolerant : settings.tolerant = true)
    (shallow : fragment.tree.depth ≤ maxDepth) (room : 0 < settings.maxPasses)
    (stuck : ∀ post ∈ posts fragment.children, post.site.failure?.isSome = true) :
    (fragment.front settings).result =
        .ok { fragment with children := settle settings fragment.children } ∧
      (fragment.front settings).splices = 0 := by
  obtain ⟨after, failures, same, splices, -⟩ :=
    (pass_stuck tolerant).1 fragment.children [] stuck fragment.begun
  have still : after.splices = 0 := splices
  have done : fixpoint settings fragment.tree.span 0 (markersAll fragment.children)
      fragment.children fragment.begun =
        .done (fragment.children, 1) (after.record [.passDone 1 0]) := by
    have passes : ¬ settings.maxPasses ≤ ((0 : Nat) : Int) := Int.not_le.mpr room
    rw [fixpoint_eq settings passes, same]
    simp [Outcome.bind, still]
  rw [front_of_done shallow done]
  exact ⟨rfl, still⟩

/-- Where a tolerant run makes no splice, no marker can be resolved. -/
theorem stuck_of_front (tolerant : settings.tolerant = true)
    (succeeded : (fragment.front settings).result = .ok result)
    (still : (fragment.front settings).splices = 0) :
    ∀ post ∈ posts fragment.children, post.site.failure?.isSome = true := by
  obtain ⟨shallow, room, trees, between, pass⟩ := front_admitted succeeded
  obtain ⟨final, number, after, done, -, splices, -⟩ := front_final succeeded
  have passes : ¬ settings.maxPasses ≤ ((0 : Nat) : Int) := Int.not_le.mpr room
  rw [fixpoint_eq settings passes, pass] at done
  refine (stuck_of_pass tolerant).1 fragment.children [] fragment.begun trees between pass ?_
  -- the splices of the first pass are splices of the run
  have none : between.splices ≤ after.splices := by
    simp only [Outcome.bind] at done
    split at done
    · simp only [Outcome.done.injEq] at done
      rw [← done.2]
      exact Nat.le_refl _
    · split at done
      · contradiction
      · split at done
        · simp only [Outcome.done.injEq] at done
          rw [← done.2]
          exact Nat.le_refl _
        · have later := splices_le_fixpoint done
          rwa [Progress.splices_record] at later
  rw [splices_begun]
  omega

/-! Fragments that were read. -/

theorem areVisible_reverse (trees : List Tree) : areVisible trees.reverse = areVisible trees := by
  induction trees with
  | nil => rfl
  | cons tree trees ih => simp [areVisible_append, areVisible, ih, Bool.and_comm]

/-- The scan of a text opens no invisible group. -/
theorem preserved_visible :
    Preserved fun opened before _ =>
      (∀ bracket ∈ opened, areVisible bracket.before = true) ∧ areVisible before = true where
  opener {opened before _ text char rest _} visible found _ := by
    refine ⟨fun bracket member => ?_, rfl⟩
    rcases List.mem_cons.mp member with rfl | member
    · exact visible.2
    · exact visible.1 bracket member
  closer {innermost opened before _ text char rest delimiter} visible found closes opens := by
    have siblings := visible.1 innermost (List.mem_cons_self ..)
    have shown : delimiter ≠ .invisible := by
      rintro rfl
      unfold closerDelimiter? at closes
      split at closes <;> contradiction
    refine ⟨fun bracket member => visible.1 bracket (List.mem_cons_of_mem _ member), ?_⟩
    simp [areVisible, isVisible, shown, areVisible_reverse, visible.2, siblings]
  token {opened before _ text char rest kind further} visible found token :=
    ⟨visible.1, visible.2⟩

theorem areVisible_of_read {source file : String} (done : read source file = .ok fragment) :
    areVisible fragment.children = true := by
  have visible := (preserved_visible.of_read ⟨by simp, rfl⟩ done).1.2
  rwa [areVisible_reverse] at visible

/-- A tolerant run ends with no marker left in its working tree that can be resolved.  Once
groups are dissolved one can be resolved again only where a head holds such a group, or where an
`else` chain meets or leaves one.  Exactly where that does not happen, or where the groups are
kept, no marker of the result can be resolved, and a second run makes no splice and returns an
equal fragment, unless the result is nested too deeply to be run again. -/
theorem front_again {source file : String} (tolerant : settings.tolerant = true)
    (lexed : read source file = .ok fragment)
    (succeeded : (fragment.front settings).result = .ok result) :
    ∃ rounds final, Rounds settings.parenthesize fragment.children rounds final ∧
      result = { fragment with children := settle settings final } ∧
      (∀ post ∈ posts final, post.site.failure?.isSome = true ∧
        (post.IsMended → post.IsLoose)) ∧
      ((∀ post ∈ posts result.children, post.site.failure?.isSome = true) ↔
        settings.keepGroups = true ∨ ∀ post ∈ posts final, ¬ post.IsMended) ∧
      (result.tree.depth ≤ maxDepth →
        ((result.front settings).result = .ok result ∧ (result.front settings).splices = 0 ↔
          settings.keepGroups = true ∨ ∀ post ∈ posts final, ¬ post.IsMended)) ∧
      (maxDepth < result.tree.depth →
        (result.front settings).result = .error ⟨.treeTooDeep, result.tree.span, none⟩) := by
  obtain ⟨shallow, room, -⟩ := front_admitted succeeded
  obtain ⟨final, number, after, done, same, -⟩ := front_final succeeded
  obtain ⟨stuck, -⟩ := fixpoint_stuck tolerant done
  have completes := fixpoint_completes settings fragment.tree.span 0 fragment.children
    fragment.begun
  rw [done] at completes
  obtain ⟨rounds, passes, -⟩ := completes
  have tidy : areTidy final = true :=
    passes.trace.areTidy_final (areTidy_of_areVisible _ (areVisible_of_read lexed))
  have left : (∀ post ∈ posts result.children, post.site.failure?.isSome = true) ↔
      settings.keepGroups = true ∨ ∀ post ∈ posts final, ¬ post.IsMended := by
    subst same
    simp only [settle]
    split
    · rename_i kept
      exact ⟨fun _ => .inl kept, fun _ => stuck⟩
    · rename_i dissolved
      rw [stuck_flattenAll_iff]
      exact ⟨.inr, fun either => either.resolve_left dissolved⟩
  refine ⟨rounds, final, passes, same, ?_, left, ?_, ?_⟩
  · intro post member
    refine ⟨stuck post member, fun mended => ?_⟩
    exact mended.isLoose (tidy_posts tidy post member) (postsAll_inPlace [] [] final post member).2
      (stuck post member)
  · intro shallowAgain
    rw [← left]
    constructor
    · rintro ⟨again, still⟩
      exact stuck_of_front tolerant again still
    · intro stuckAgain
      obtain ⟨again, still⟩ := front_stuck tolerant shallowAgain room stuckAgain
      refine ⟨?_, still⟩
      rw [again, same]
      simp only [settle]
      split
      · rfl
      · rw [flattenAll_flattenAll]
  · intro deep
    rw [front_tooDeep deep, result_stopped]

/-- An unknown construct is left, and nothing happens to it in a second run. -/
theorem front_again_unknown :
    ∃ fragment result, read "b::(frob) {} c::(box)" "main.rs" = .ok fragment ∧
      (fragment.front { tolerant := true }).result = .ok result ∧
      result.tree.compact = "b :: ( frob ) { } box c" ∧
      (result.front { tolerant := true }).result = .ok result ∧
      (result.front { tolerant := true }).splices = 0 := by
  have run : (read "b::(frob) {} c::(box)" "main.rs").toOption.any fun fragment =>
      (fragment.front { tolerant := true }).result.toOption.any fun result =>
        result.tree.compact == "b :: ( frob ) { } box c" && result.tree.depth ≤ maxDepth &&
          (posts result.children).all (·.site.failure?.isSome) := by
    decide +kernel
  obtain ⟨fragment, lexed, run⟩ := exists_ok_of_any run
  obtain ⟨result, succeeded, run⟩ := exists_ok_of_any run
  simp only [Bool.and_eq_true, beq_iff_eq, decide_eq_true_eq, List.all_eq_true] at run
  obtain ⟨_, _, -, -, -, left, again, -⟩ := front_again rfl lexed succeeded
  obtain ⟨same, still⟩ := (again run.1.2).mpr (left.mp run.2)
  exact ⟨fragment, result, lexed, succeeded, run.1.1, same, still⟩

/-- The head `mut::(&)` becomes `& mut` only where the group around it is dissolved, after the
last pass: the second run moves it in front of its operand. -/
theorem front_again_mended :
    ∃ fragment result again, read "a::(mut::(&))" "main.rs" = .ok fragment ∧
      (fragment.front { tolerant := true }).result = .ok result ∧
      result.tree.compact = "a :: ( & mut )" ∧
      (result.front { tolerant := true }).result = .ok again ∧
      (result.front { tolerant := true }).splices = 1 ∧ again.tree.compact = "& mut a" := by
  have run : (read "a::(mut::(&))" "main.rs").toOption.any fun fragment =>
      (fragment.front { tolerant := true }).result.toOption.any fun result =>
        result.tree.compact == "a :: ( & mut )" &&
          (result.front { tolerant := true }).splices == 1 &&
          (result.front { tolerant := true }).result.toOption.any fun again =>
            again.tree.compact == "& mut a" := by
    decide +kernel
  obtain ⟨fragment, lexed, run⟩ := exists_ok_of_any run
  obtain ⟨result, succeeded, run⟩ := exists_ok_of_any run
  simp only [Bool.and_eq_true, beq_iff_eq] at run
  obtain ⟨again, succeededAgain, printed⟩ := exists_ok_of_any run.2
  exact ⟨fragment, result, again, lexed, succeeded, run.1.1, succeededAgain, run.1.2,
    by simpa using printed⟩

end Fragment

end Headfirst
