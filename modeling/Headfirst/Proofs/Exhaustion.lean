import Headfirst.Proofs.Chaining

namespace Headfirst

open Headfirst.Tree

/-! Strict runs.  Where no occurrence is left untouched the scan leaves no marker behind,
so one pass is enough, and its result stays as it is. -/

theorem Settled.passable {before : List Tree} {next : Option Tree}
    (settled : Settled before.length before next) : Passable next before.reverse := by
  induction before generalizing next with
  | nil => trivial
  | cons tree before ih =>
      rw [List.reverse_cons, passable_append]
      exact ⟨ih settled.2, settled.1, trivial⟩

namespace Fronting

variable {settings : Settings} {progress after : Progress} {result : List Tree}

theorem settled_siblings (strict : settings.tolerant = false) {floor : Nat}
    {before rest : List Tree} (ready : Ready floor before rest)
    (done : siblings settings floor before rest progress = .done result after) :
    Settled (result.length - floor) result.reverse none := by
  fun_induction siblings settings floor before rest progress with
  | case1 floor before progress =>
      cases done
      rw [List.reverse_reverse, List.length_reverse]
      exact ready.settled
  | case2 floor before tree after progress isMarker site reach recorded failure resolved tolerant ih =>
      rw [strict] at tolerant
      contradiction
  | case3 => contradiction
  | case4 => contradiction
  | case5 floor before tree after progress isMarker site reach recorded occurrence resolved counted within replacement ih =>
      exact ih (ready.splice resolved settings.parenthesize) done
  | case6 floor before tree after progress noMarker ih =>
      exact ih (ready.skip (by simpa using noMarker)) done

theorem passable_siblings (strict : settings.tolerant = false) {trees : List Tree}
    (done : siblings settings 0 [] trees progress = .done result after) :
    Passable none result := by
  have settled := settled_siblings strict (.start trees) done
  rw [Nat.sub_zero, ← List.length_reverse] at settled
  simpa using settled.passable

/-- A strict pass leaves no marker at any depth. -/
theorem pass_unmarked (strict : settings.tolerant = false) :
    (∀ trees progress result after,
      sequence settings trees progress = .done result after → markersAll result = 0) ∧
    ∀ trees progress result after, below settings trees progress = .done result after →
      ∀ tree ∈ result, tree.markers = 0 := by
  apply pass_induction
  case scan =>
      intro trees ih progress result after done
      rw [sequence_eq, Outcome.bind_eq_done] at done
      obtain ⟨scanned, between, scan, rest⟩ := done
      have smaller := sizeAll_siblings_start scan
      rw [← markersBefore_none, markersBefore_eq_zero]
      exact ⟨passable_of_shell (below_shell rest) (passable_siblings strict scan),
        ih scanned smaller between result after rest⟩
  case nil =>
      intro progress result after done
      rw [below_nil] at done
      cases done
      simp
  case leaf =>
      intro token trees ih progress result after done
      rw [below_leaf, Outcome.bind_eq_done] at done
      obtain ⟨right, between, finished, whole⟩ := done
      cases whole
      intro tree member
      rcases List.mem_cons.mp member with rfl | member
      · rfl
      · exact ih progress right after finished tree member
  case group =>
      intro bracket children trees ihInside ihRight progress result after done
      rw [below_group, Outcome.bind_eq_done] at done
      obtain ⟨inner, between, finishedInside, rest⟩ := done
      rw [Outcome.bind_eq_done] at rest
      obtain ⟨right, last, finished, whole⟩ := rest
      cases whole
      intro tree member
      rcases List.mem_cons.mp member with rfl | member
      · exact ihInside progress inner between finishedInside
      · exact ihRight between right after finished tree member

theorem markersAll_of_strict (strict : settings.tolerant = false) {trees : List Tree}
    (done : sequence settings trees progress = .done result after) : markersAll result = 0 :=
  (pass_unmarked strict).1 trees progress result after done

end Fronting

/-! How deep a result can be. -/

namespace Link

variable {link : Link} {links : List Link} {operand : Tree}

theorem depth_replace (invisible : operand.isInvisible = true) :
    depthAll operand.flatten + 1 ≤ depthAll (link.replace operand).flatten := by
  obtain ⟨loc, endLoc, wrapped⟩ := Replacement.wrapped_invisible invisible
  have same : [operand.bare].map bare = [operand].map bare := congrArg ([·]) bare_withLeading
  have inside : depthAll (flattenAll [operand.bare]) = depthAll operand.flatten := by
    rw [depthAll_flattenAll_eq_of_bare same, flattenAll, flattenAll, List.append_nil]
  have spread : depthAll (link.replace operand).flatten =
      depthAll (flattenAll (link.head.trees ++
        Replacement.wrapped true [operand] :: link.tail)) := by
    rw [replace, Replacement.make, flatten, if_pos rfl,
      depthAll_eq_of_bare (bare_prepend _ _),
      depthAll_flattenAll_eq_of_bare (bare_spaced _)]
  rw [spread, flattenAll_append, depthAll_append, flattenAll, depthAll_append, wrapped, flatten,
    if_neg (by simp), depthAll, depth, inside]
  omega

theorem depth_replaced (invisible : operand.isInvisible = true) :
    depthAll operand.flatten + links.length ≤ depthAll (replaced operand links).flatten := by
  induction links generalizing operand with
  | nil => exact Nat.le_refl _
  | cons link links ih =>
      have here := @depth_replace link operand invisible
      have later := @ih (link.replace operand) rfl
      rw [List.length_cons, replaced]
      omega

end Link

namespace Chain

def references (others : Nat) : Chain :=
  lone name isPlain_name rfl .reference (List.replicate others .reference)

theorem length_references (others : Nat) : (references others).links.length = others + 1 := by
  simp [references, lone, Chain.links]

theorem depth_references (others : Nat) : (references others).fragment.tree.depth ≤ 2 := by
  have shallow (count : Nat) :
      depthAll (Link.treesAll (List.replicate count .reference)) ≤ 1 := by
    induction count with
    | zero => exact Nat.zero_le 1
    | succ count ih =>
        rw [List.replicate_succ, Link.treesAll, List.flatMap_cons, depthAll_append]
        exact Nat.max_le.mpr ⟨by decide, ih⟩
  have links := shallow (others + 1)
  have name : name.depth = 0 := rfl
  rw [List.replicate_succ] at links
  simp only [references, fragment, Fragment.tree, Chain.trees, lone, Chain.links, depth, depthAll,
    List.reverse_nil, List.nil_append, List.append_nil, name]
  omega

theorem lt_depth_result (others : Nat) :
    others < 1 + depthAll (flattenAll (references others).result) := by
  have deep : depthAll (Link.reference.replace name).flatten + others ≤
      depthAll (references others).replacement.flatten := by
    have nested := @Link.depth_replaced (List.replicate others .reference)
      (Link.reference.replace name) rfl
    rwa [List.length_replicate] at nested
  have one : flattenAll (references others).result =
      (references others).replacement.flatten := by
    simp [Chain.result, references, lone, flattenAll]
  rw [one]
  omega

end Chain

namespace Fragment

open Headfirst.Fronting

variable {settings : Settings} {fragment result : Fragment}

/-- A strict run that succeeds leaves no marker, not even where invisible groups are
dissolved.  It makes one pass and a splice for each marker.  Its flattened result, run
again, stays as it is, unless it is nested too deeply to be run again. -/
theorem front_strict (strict : settings.tolerant = false)
    (succeeded : (fragment.front settings).result = .ok result) :
    let flattened : Fragment := { result with children := flattenAll result.children }
    result.tree.markers = 0 ∧ flattened.tree.markers = 0 ∧
      (fragment.front settings).splices = fragment.tree.markers ∧
      (fragment.front settings).passes = 1 ∧
      (flattened.tree.depth ≤ maxDepth →
        (flattened.front settings).result = .ok flattened ∧
          (flattened.front settings).splices = 0) ∧
      (maxDepth < flattened.tree.depth →
        (flattened.front settings).result =
          .error ⟨.treeTooDeep, flattened.tree.span, none⟩) := by
  obtain ⟨shallow, room, trees, after, pass⟩ := front_admitted succeeded
  have unmarked := markersAll_of_strict strict pass
  obtain ⟨same, passes, splices, -⟩ := front_once shallow room pass unmarked
  have exact := markersAll_sequence pass
  rw [same] at succeeded
  cases succeeded
  have settled : markersAll (settle settings trees) = 0 := markersAll_settle settings unmarked
  have flat : markersAll (flattenAll (settle settings trees)) = 0 :=
    markersAll_flattenAll _ settled
  refine ⟨settled, flat, ?_, passes, ?_, ?_⟩
  · rw [splices]
    simp only [unmarked, Nat.zero_add] at exact
    exact exact
  · intro shallowAgain
    obtain ⟨again, -, none, -⟩ := front_still shallowAgain room flat
    refine ⟨?_, none⟩
    rw [again]
    simp only [settle_flattenAll]
  · intro deep
    rw [front_tooDeep deep, result_stopped]

theorem front_strict_arms_reference :
    let chain := Chain.lone Chain.name Chain.isPlain_name rfl .arms [.reference]
    ∃ result, (chain.fragment.front {}).result = .ok result ∧ result.tree.markers = 0 ∧
      (chain.fragment.front {}).splices = 2 ∧ (chain.fragment.front {}).passes = 1 := by
  intro chain
  have alone : chain.Alone := Chain.alone_lone _ _
  obtain ⟨succeeded, -⟩ := Chain.front_fill {} [] { delimiter := .invisible } alone rfl rfl
    (by decide) (by decide) (by decide)
  obtain ⟨unmarked, -, splices, passes, -⟩ := front_strict rfl succeeded
  exact ⟨_, succeeded, unmarked, splices, passes⟩

/-- `x::(&)::(&)...`, four hundred times: the first run succeeds, and its result is refused
by the second one. -/
theorem front_strict_refused_again :
    ∃ result, ((Chain.references 399).fragment.front {}).result = .ok result ∧
      (Fragment.front {} { result with children := flattenAll result.children }).result =
        .error ⟨.treeTooDeep, (Tree.group result.bracket (flattenAll result.children)).span,
          none⟩ := by
  have alone : (Chain.references 399).Alone := Chain.alone_lone _ _
  have room : (Chain.references 399).links.length ≤ (10000 : Int) := by
    rw [Chain.length_references]
    decide
  obtain ⟨succeeded, -⟩ := Chain.front_fill {} [] { delimiter := .invisible } alone rfl rfl
    room (by decide) (Nat.le_trans (Chain.depth_references 399) (by decide))
  refine ⟨_, succeeded, ?_⟩
  have deep : 399 < (Fragment.tree ⟨{ delimiter := .invisible }, flattenAll
      (settle {} (Chain.references 399).result)⟩).depth := by
    simp only [Fragment.tree, depth, flattenAll_settle]
    exact Chain.lt_depth_result 399
  rw [Frame.fill, front_tooDeep (Nat.lt_trans (by decide) deep), result_stopped]
  rfl

end Fragment

end Headfirst
