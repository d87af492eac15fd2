import Headfirst.Proofs.Expanding
import Headfirst.Proofs.Order

namespace Headfirst

open Headfirst.Tree

/-! The warnings of an expansion.

Each run keeps a report once, and what it reports lies in its argument.  An argument lies apart
from all others but those around it, so a report is only made twice where a run meets again what
was left by a run within its argument. -/

variable {settings : Settings} {macroName : String} {places : List Loc}

namespace Invocation

variable {invocation : Invocation} {trees : List Tree}

theorem StandsIn.locs_subset (stands : invocation.StandsIn trees) :
    locsAll invocation.argument ⊆ locsAll trees := by
  induction stands with
  | here rest =>
      intro loc member
      simp [Invocation.trees, locsAll, locs, member]
  | later tree stands ih =>
      intro loc member
      exact List.mem_append_right _ (ih member)
  | inside bracket rest stands ih =>
      intro loc member
      exact List.mem_append_left _ (List.mem_cons_of_mem _ (ih member))

theorem locs_subset (member : invocation ∈ all macroName trees) :
    locsAll invocation.argument ⊆ locsAll trees :=
  (mem_all.mp member).2.locs_subset

/-- Of two invocations the first lies within the argument of the second, or all of its argument
comes before that of the second. -/
theorem pairwise_all (macroName : String) (trees : List Tree)
    (sorted : (locsAll trees).Pairwise Loc.Before) :
    (all macroName trees).Pairwise fun first second =>
      first ∈ all macroName second.argument ∨
        ∀ loc ∈ locsAll first.argument, ∀ other ∈ locsAll second.argument, loc.Before other := by
  induction trees using Invocation.induction macroName with
  | nil =>
      rw [all_nil]
      exact .nil
  | token token rest none later =>
      rw [all_token none]
      exact later sorted.of_cons
  | group bracket children rest within later =>
      rw [locsAll, List.pairwise_append] at sorted
      obtain ⟨inside, behind, apart⟩ := sorted
      rw [locs] at inside apart
      rw [all_group, List.pairwise_append]
      refine ⟨within inside.of_cons, later behind, ?_⟩
      intro first inner second outer
      refine .inr fun loc member other among => ?_
      exact apart loc (List.mem_cons_of_mem _ (locs_subset inner member)) other
        (locs_subset outer among)
  | invocation invocation rest calls within later =>
      have around : (locsAll invocation.argument ++ locsAll rest).Pairwise Loc.Before := by
        refine sorted.sublist ?_
        simp only [Invocation.trees, locsAll, locs, List.cons_append, List.nil_append]
        exact .cons _ (.cons _ (.cons _ (.refl _)))
      rw [List.pairwise_append] at around
      obtain ⟨inside, behind, apart⟩ := around
      rw [all_call calls, List.pairwise_append, List.pairwise_cons]
      refine ⟨within inside, ⟨?_, later behind⟩, ?_⟩
      · intro second outer
        exact .inr fun loc member other among => apart loc member other (locs_subset outer among)
      · intro first inner second outer
        rcases List.mem_cons.mp outer with rfl | outer
        · exact .inl inner
        · exact .inr fun loc member other among =>
            apart loc (locs_subset inner member) other (locs_subset outer among)

/-- An invocation is expanded right after what is invoked within its argument. -/
theorem sublist_all (member : invocation ∈ all macroName trees) :
    (all macroName invocation.argument ++ [invocation]).Sublist (all macroName trees) := by
  induction trees using Invocation.induction macroName with
  | nil => simp [all_nil] at member
  | token token rest none later =>
      rw [all_token none] at member ⊢
      exact later member
  | group bracket children rest within later =>
      rw [all_group] at member ⊢
      rcases List.mem_append.mp member with inner | outer
      · exact (within inner).trans (List.sublist_append_left ..)
      · exact (later outer).trans (List.sublist_append_right ..)
  | invocation other rest calls within later =>
      rw [all_call calls] at member ⊢
      rcases List.mem_append.mp member with inner | outer
      · exact (within inner).trans (List.sublist_append_left ..)
      · rcases List.mem_cons.mp outer with rfl | outer
        · exact .append (.refl _) (.cons_cons _ (List.nil_sublist _))
        · refine (later outer).trans ?_
          exact (List.sublist_cons_self ..).trans (List.sublist_append_right ..)

theorem isPlaced_argument (stands : invocation.StandsIn trees)
    (placed : ∀ tree ∈ trees, tree.IsPlaced places) :
    ∀ tree ∈ invocation.argument, tree.IsPlaced (locsAll invocation.argument) := by
  rw [forall_isPlaced_iff] at placed ⊢
  intro loc member
  exact ⟨member, (placed loc (stands.locs_subset member)).2⟩

end Invocation

/-- What takes the places of the invocations of some trees knows no places but theirs. -/
theorem Part.isPlaced_fillAll (trees : List Tree)
    (succeeds : ∀ invocation ∈ Invocation.all macroName trees,
      ∃ expansion, (invocation.run settings macroName).result = .ok expansion)
    (placed : ∀ tree ∈ trees, tree.IsPlaced places) :
    ∀ tree ∈ fillAll (·.replacement settings macroName) (read macroName trees),
      tree.IsPlaced places := by
  induction trees using Invocation.induction macroName with
  | nil => simp [read, fillAll]
  | token token rest none later =>
      rw [List.forall_mem_cons] at placed
      rw [Invocation.all_token none] at succeeds
      rw [read_token none, fillAll, fill, List.singleton_append, List.forall_mem_cons]
      exact ⟨placed.1, later succeeds placed.2⟩
  | group bracket children rest within later =>
      rw [List.forall_mem_cons, isPlaced_group] at placed
      rw [Invocation.all_group, List.forall_mem_append] at succeeds
      rw [read_group, fillAll, fill, List.singleton_append, List.forall_mem_cons, isPlaced_group]
      exact ⟨⟨placed.1.1, within succeeds.1 placed.1.2⟩, later succeeds.2 placed.2⟩
  | invocation invocation rest calls within later =>
      rw [Invocation.all_call calls, List.forall_mem_append, List.forall_mem_cons] at succeeds
      obtain ⟨inner, here, behind⟩ := succeeds
      rw [Invocation.trees, List.forall_mem_append] at placed
      obtain ⟨own, after⟩ := placed
      simp only [List.forall_mem_cons, isPlaced_group] at own
      rw [read_invocation calls, fillAll, fill, List.forall_mem_append]
      refine ⟨?_, later behind after⟩
      obtain ⟨expansion, succeeded⟩ := here
      have argument := within inner own.2.2.1.2
      rw [← Invocation.expanded_eq inner] at argument
      have result := (Fragment.front_isPlaced argument).2 expansion succeeded
      rw [Invocation.replacement, List.forall_mem_singleton, Expansion.replacement, isPlaced_group,
        Run.children, succeeded]
      exact ⟨own.1.loc, result⟩

theorem Invocation.liesIn_argument {invocation : Invocation} {trees : List Tree}
    (succeeds : ∀ invocation ∈ all macroName trees,
      ∃ expansion, (invocation.run settings macroName).result = .ok expansion)
    (placed : ∀ tree ∈ trees, tree.IsPlaced places) (member : invocation ∈ all macroName trees) :
    ∀ failure ∈ (invocation.run settings macroName).tolerated,
      failure.LiesIn (locsAll invocation.argument) := by
  have argument := isPlaced_argument (mem_all.mp member).2 placed
  have inner : ∀ other ∈ all macroName invocation.argument,
      ∃ expansion, (other.run settings macroName).result = .ok expansion := by
    intro other within
    exact succeeds other (mem_all_of_argument within member)
  have filled := Part.isPlaced_fillAll invocation.argument inner argument
  rw [← Invocation.expanded_eq inner] at filled
  exact (Fragment.front_isPlaced filled).1

/-- Failures at places of which one comes before the other have different reports. -/
theorem Failure.report_ne {first second : Failure} {former later : List Loc}
    (left : first.LiesIn former) (right : second.LiesIn later)
    (apart : ∀ loc ∈ former, ∀ other ∈ later, loc.Before other) : first.report ≠ second.report := by
  obtain ⟨loc, member, line, column⟩ := left
  obtain ⟨other, among, otherLine, otherColumn⟩ := right
  intro same
  simp only [Failure.report, Prod.mk.injEq] at same
  obtain ⟨-, lines, columns, -⟩ := same
  have before := apart loc member other among
  unfold Loc.Before at before
  omega

namespace Fragment

variable {fragment result : Fragment}

theorem nodup_reports (settings : Settings) (fragment : Fragment) :
    ((fragment.front settings).tolerated.map Failure.report).Nodup := by
  obtain ⟨_, _, -, -, noted, -⟩ := front_toured settings fragment
  rw [noted]
  exact Progress.nodup_noted .nil

/-- The warnings of an expansion are those of its runs, one after another, and no run makes a
report twice.  Runs over arguments of which neither lies within the other have no report in common.
So a report is made twice exactly if a run makes one that a run within its argument has made. -/
theorem expand_warnings {source file : String} {tally : Tally}
    (lexed : read source file = .ok fragment)
    (succeeded : fragment.expand settings macroName = (result, none, tally)) :
    let invocations := Invocation.all (settings.called macroName) fragment.children
    let within (invocation : Invocation) :=
      Invocation.all (settings.called macroName) invocation.argument
    let reports (invocation : Invocation) :=
      (invocation.run settings (settings.called macroName)).tolerated.map Failure.report
    tally.tolerated.map Failure.report = invocations.flatMap reports ∧
    (∀ invocation ∈ invocations, (reports invocation).Nodup) ∧
    (invocations.Pairwise fun first second =>
      first ∈ within second ∨ (reports first).Disjoint (reports second)) ∧
    ((tally.tolerated.map Failure.report).Nodup ↔
      ∀ outer ∈ invocations, ∀ inner ∈ within outer, (reports inner).Disjoint (reports outer)) := by
  intro invocations within reports
  obtain ⟨succeeds, -, tolerated⟩ := expand_whole succeeded
  obtain ⟨sorted, placed⟩ := inOrder_of_read lexed
  have told : tally.tolerated.map Failure.report = invocations.flatMap reports := by
    rw [tolerated, List.map_flatMap]
  have once : ∀ invocation ∈ invocations, (reports invocation).Nodup :=
    fun invocation _ => nodup_reports ..
  have apart : invocations.Pairwise fun first second =>
      first ∈ within second ∨ (reports first).Disjoint (reports second) := by
    have order := Invocation.pairwise_all (settings.called macroName) fragment.children sorted
    refine order.imp_of_mem ?_
    intro first second former later either
    rcases either with nested | before
    · exact .inl nested
    · refine .inr fun report left right => ?_
      obtain ⟨failure, member, same⟩ := List.mem_map.mp left
      obtain ⟨other, among, equal⟩ := List.mem_map.mp right
      exact Failure.report_ne (Invocation.liesIn_argument succeeds placed former failure member)
        (Invocation.liesIn_argument succeeds placed later other among) before
        (same.trans equal.symm)
  refine ⟨told, once, apart, ?_⟩
  rw [told, List.nodup_flatMap]
  constructor
  · intro distinct outer member inner nested
    have pair := distinct.2.sublist (Invocation.sublist_all member)
    exact (List.pairwise_append.mp pair).2.2 inner nested outer List.mem_cons_self
  · intro distinct
    refine ⟨once, apart.imp_of_mem ?_⟩
    intro first second _ later either
    rcases either with nested | disjoint
    · exact distinct second later first nested
    · exact disjoint

/-- Two occurrences of an unknown construct, each in an invocation of its own. -/
theorem expand_warnings_apart :
    ∃ fragment result tally,
      read "sonic_spin!(x::(frob) \x7b\x7d); sonic_spin!(y::(frob) \x7b\x7d)" "main.rs" =
        .ok fragment ∧
      fragment.expand { tolerant := true } "" = (result, none, tally) ∧
      tally.tolerated.length = 2 ∧ (tally.tolerated.map Failure.report).Nodup := by
  have reading : (read "sonic_spin!(x::(frob) \x7b\x7d); sonic_spin!(y::(frob) \x7b\x7d)"
      "main.rs").toOption.any fun fragment =>
        (fragment.expand { tolerant := true } "").2.1.isNone &&
          (fragment.expand { tolerant := true } "").2.2.tolerated.length == 2 &&
          (Invocation.all "sonic_spin" fragment.children).all
            (Invocation.all "sonic_spin" ·.argument |>.isEmpty) := by
    decide +kernel
  obtain ⟨fragment, lexed, reading⟩ := exists_ok_of_any reading
  simp only [Bool.and_eq_true, Option.isNone_iff_eq_none, beq_iff_eq, List.all_eq_true,
    List.isEmpty_iff] at reading
  obtain ⟨⟨whole, two⟩, flat⟩ := reading
  have succeeded := eq_of_whole whole
  obtain ⟨-, -, -, once⟩ := expand_warnings lexed succeeded
  refine ⟨fragment, _, _, lexed, succeeded, two, once.mpr ?_⟩
  intro outer member inner nested
  have within : inner ∈ Invocation.all "sonic_spin" outer.argument := nested
  rw [flat outer member] at within
  contradiction

/-- The run over the outer argument reports again what the inner one has reported. -/
theorem expand_warnings_nested :
    ∃ fragment result tally,
      read "sonic_spin!(sonic_spin!(x::(frob) \x7b\x7d))" "main.rs" = .ok fragment ∧
      fragment.expand { tolerant := true } "" = (result, none, tally) ∧
      ¬ (tally.tolerated.map Failure.report).Nodup := by
  have reading : (read "sonic_spin!(sonic_spin!(x::(frob) \x7b\x7d))"
      "main.rs").toOption.any fun fragment =>
        (fragment.expand { tolerant := true } "").2.1.isNone &&
          ¬ ((fragment.expand { tolerant := true } "").2.2.tolerated.map Failure.report).Nodup := by
    decide +kernel
  obtain ⟨fragment, lexed, reading⟩ := exists_ok_of_any reading
  simp only [Bool.and_eq_true, Option.isNone_iff_eq_none, decide_eq_true_eq] at reading
  exact ⟨fragment, _, _, lexed, eq_of_whole reading.1, reading.2⟩

end Fragment

end Headfirst
