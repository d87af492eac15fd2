import Headfirst.Proofs.Sweeps

namespace Headfirst

open Headfirst.Tree Headfirst.Fronting

/-! What an operand can hold.  It holds no marker and no replacement but at its front, and
nothing of an occurrence that the scan has left untouched: the floor lies behind all of them,
and what lies before the floor stays where it is. -/

theorem Settled.passable_take {reach count : Nat} {before : List Tree} {next : Option Tree}
    (settled : Settled reach before next) (within : count ≤ reach) :
    Passable next (before.take count).reverse := by
  induction count generalizing reach before next with
  | zero => simp [Passable]
  | succ count ih =>
      cases before with
      | nil => simp [Passable]
      | cons tree before =>
          cases reach with
          | zero => omega
          | succ reach =>
              rw [List.take_succ_cons, List.reverse_cons, passable_append]
              exact ⟨ih settled.2 (by omega), settled.1, trivial⟩

namespace Operand

variable {reach : Nat} {before operand : List Tree}

theorem visible_extent (reach : Nat) (before : List Tree) (next : Tree) :
    ∀ tree ∈ (before.take (extent reach before next)).dropLast, tree.isInvisible = false := by
  fun_induction extent reach before next with
  | case1 => simp
  | case2 => simp
  | case3 => simp
  | case4 => simp
  | case5 reach nearest before next goesOn visible ih =>
      rw [List.take_succ_cons]
      cases farther : before.take (extent reach before nearest) with
      | nil => simp
      | cons second others =>
          rw [farther] at ih
          intro tree member
          rw [List.dropLast_cons_of_ne_nil (by simp), List.mem_cons] at member
          rcases member with rfl | member
          · simpa using visible
          · exact ih tree member

/-- Only the farthest tree of an operand can be a replacement. -/
theorem visible_of_take {marker : Tree} (taken : take reach before marker = .ok operand) :
    ∀ tree ∈ operand.dropLast, tree.isInvisible = false := by
  rw [(take_eq_take_length taken).1]
  unfold length
  split
  · simp
  · simp
  · rename_i reach nearest before
    split
    · simp
    · rename_i goesOn
      split
      · simp
      · rename_i visible
        rw [List.take_succ_cons]
        have farther := visible_extent reach before nearest
        intro tree member
        cases taken : before.take (extent reach before nearest) with
        | nil => simp [taken] at member
        | cons second others =>
            rw [taken] at farther member
            rw [List.dropLast_cons_of_ne_nil (by simp), List.mem_cons] at member
            rcases member with rfl | member
            · simpa using visible
            · exact farther tree member

end Operand

namespace Site

variable {site : Site} {reach : Nat} {occurrence : Occurrence}

theorem passable_operand (settled : Settled reach site.before (some site.marker))
    (resolved : site.resolve reach = .ok occurrence) :
    Passable (some site.marker) occurrence.operand := by
  obtain ⟨operand, taken, same, -⟩ := resolve_taken resolved
  rw [same, (Operand.take_eq_take_length taken).1]
  exact settled.passable_take (Operand.length_le_reach ..)

/-- A marker in front of the operand is one in front of the replacement. -/
theorem passable_of_replacement (settled : Settled reach site.before (some site.marker))
    (resolved : site.resolve reach = .ok occurrence) (parenthesize : Bool)
    (passable : Passable (some (occurrence.replacement parenthesize)) occurrence.before.reverse) :
    Passable (some site.marker) site.before.reverse := by
  obtain ⟨group, -, nonempty, cut, -⟩ := resolve_parts resolved
  rw [cut, passable_append]
  refine ⟨?_, passable_operand settled resolved⟩
  obtain ⟨first, others, operand⟩ := List.exists_cons_of_ne_nil nonempty
  cases stop : occurrence.before with
  | nil => trivial
  | cons tree before =>
      have same := test_before_replacement settled resolved parenthesize
        (show occurrence.before.head? = some tree by rw [stop]; rfl)
      rw [stop, List.reverse_cons, passable_append] at passable
      rw [List.reverse_cons, passable_append, operand]
      rw [operand] at same
      exact ⟨passable.1, same.symm.trans passable.2.1, trivial⟩

theorem visible_operand (resolved : site.resolve reach = .ok occurrence) :
    ∀ tree ∈ occurrence.operand.tail, tree.isInvisible = false := by
  obtain ⟨operand, taken, same, -⟩ := resolve_taken resolved
  intro tree member
  rw [same, List.tail_reverse, List.mem_reverse] at member
  exact Operand.visible_of_take taken tree member

theorem le_start {floor : Nat} (reached : floor ≤ site.before.length)
    (resolved : site.resolve (site.before.length - floor) = .ok occurrence) :
    floor ≤ occurrence.start := by
  obtain ⟨operand, taken, -, rest, -⟩ := resolve_taken resolved
  have short := Operand.length_le_reach (site.before.length - floor) site.before
  have length := Operand.length_of_take taken
  simp only [Occurrence.start, rest, List.length_drop]
  omega

end Site

theorem Fronting.Ready.reached {floor : Nat} {before after : List Tree} {tree : Tree}
    (ready : Ready floor before (tree :: after))
    (isMarker : Marker.test tree after.head? = true) : floor ≤ before.length := by
  refine Nat.not_lt.mp fun ahead => ?_
  obtain ⟨token, rfl, separator⟩ := Marker.eq_leaf_of_test isMarker
  have group := ready.untouched (.leaf token) (by
    rw [show floor - before.length = (floor - before.length - 1) + 1 by omega,
      List.take_succ_cons]
    exact List.mem_cons_self)
  exact absurd separator (by simpa [Tree.isPunct, Tree.anyToken] using group)

namespace Move

/-- The sequence still begins with the trees of `front` when the move happens, and what the move
takes as an operand stands behind them. -/
def Behind (front : List Tree) : Move → Prop
  | left site _ => front <+: site.trees
  | spliced _ occurrence => front <+: occurrence.before.reverse

/-- If the earlier move leaves an occurrence untouched, then its marker, its head and the block
behind the head stand where they stood when the later move happens, in front of the operand. -/
def Spares (earlier later : Move) : Prop :=
  match earlier with
  | left site _ => ∃ groups, OwnGroups site.after groups ∧
      later.Behind (site.before.reverse ++ site.marker :: groups)
  | spliced .. => True

end Move

namespace Sweep

variable {parenthesize : Bool} {stand last : Stand} {moves : List Move}

/-- What lies before the floor stays where it is until the end of a scan. -/
theorem beyond (sweep : Sweep parenthesize stand moves last)
    (ready : Ready stand.floor stand.before stand.rest) {stop : Nat}
    (guarded : stop ≤ stand.floor) :
    (∀ move ∈ moves, move.Behind (stand.trees.take stop)) ∧
      last.trees.take stop = stand.trees.take stop := by
  induction sweep with
  | rest => simp
  | @skip floor before after tree moves last noMarker later ih =>
      have same : Stand.trees ⟨floor, tree :: before, after⟩ =
          Stand.trees ⟨floor, before, tree :: after⟩ := by simp [Stand.trees]
      rw [← same]
      exact ih (ready.skip noMarker) guarded
  | @leave floor before after tree failure moves last isMarker failed later ih =>
      have same : Stand.trees ⟨untouchedEnd before.length after, tree :: before, after⟩ =
          Stand.trees ⟨floor, before, tree :: after⟩ := by simp [Stand.trees]
      have reached : floor ≤ before.length := ready.reached isMarker
      have farther := lt_untouchedEnd before.length after
      obtain ⟨moved, kept⟩ := ih (.tolerate isMarker before) (by simp only at guarded ⊢; omega)
      rw [same] at moved kept
      refine ⟨?_, kept⟩
      intro move member
      rcases List.mem_cons.mp member with rfl | member
      · exact List.take_prefix ..
      · exact moved move member
  | @splice floor before after tree occurrence moves last isMarker resolved later ih =>
      have reached : floor ≤ before.length := ready.reached isMarker
      have start : stop ≤ occurrence.before.length :=
        Nat.le_trans guarded (Site.le_start reached resolved)
      obtain ⟨group, -, -, cut, -⟩ := Site.resolve_parts resolved
      have same : (Stand.trees ⟨floor, occurrence.replacement parenthesize :: occurrence.before,
            occurrence.after⟩).take stop =
          (Stand.trees ⟨floor, before, tree :: after⟩).take stop := by
        simp only [Stand.trees] at cut ⊢
        rw [cut, List.reverse_cons, List.append_assoc, List.append_assoc,
          List.take_append_of_le_length (by simpa using start),
          List.take_append_of_le_length (by simpa using start)]
      obtain ⟨moved, kept⟩ := ih (ready.splice resolved parenthesize) guarded
      refine ⟨?_, kept.trans same⟩
      intro move member
      rcases List.mem_cons.mp member with rfl | member
      · rw [← same, Stand.trees, List.reverse_cons, List.append_assoc,
          List.take_append_of_le_length (by simpa using start)]
        exact List.take_prefix ..
      · exact same ▸ moved move member

theorem spares (sweep : Sweep parenthesize stand moves last)
    (ready : Ready stand.floor stand.before stand.rest) : moves.Pairwise Move.Spares := by
  induction sweep with
  | rest => exact .nil
  | skip noMarker later ih => exact ih (ready.skip noMarker)
  | @leave floor before after tree failure moves last isMarker failed later ih =>
      have ready' : Ready (untouchedEnd before.length after) (tree :: before) after :=
        .tolerate isMarker before
      obtain ⟨groups, own, ends⟩ := exists_ownGroups before.length after
      have front : (Stand.trees ⟨untouchedEnd before.length after, tree :: before, after⟩).take
          (untouchedEnd before.length after) = before.reverse ++ tree :: groups := by
        have length : untouchedEnd before.length after =
            (tree :: before).reverse.length + groups.length := by simp [ends]
        rw [length, Stand.trees, List.take_length_add_append, own.take_eq]
        simp
      refine .cons ?_ (ih ready')
      intro move member
      refine ⟨groups, own, ?_⟩
      rw [← front]
      exact (later.beyond ready' (Nat.le_refl _)).1 move member
  | splice isMarker resolved later ih =>
      exact .cons (fun _ _ => trivial) (ih (ready.splice resolved parenthesize))

/-- A splice of a scan resolves the occurrence at its marker, within a reach in which there is
no marker any more. -/
theorem exists_resolve (sweep : Sweep parenthesize stand moves last)
    (ready : Ready stand.floor stand.before stand.rest) :
    ∀ site occurrence, .spliced site occurrence ∈ moves →
      Marker.test site.marker site.after.head? = true ∧
        ∃ reach, Settled reach site.before (some site.marker) ∧
          site.resolve reach = .ok occurrence := by
  induction sweep with
  | rest => simp
  | skip noMarker later ih => exact ih (ready.skip noMarker)
  | leave isMarker failed later ih =>
      intro site occurrence member
      rcases List.mem_cons.mp member with same | member
      · contradiction
      · exact ih (.tolerate isMarker _) site occurrence member
  | @splice floor before after tree occurrence moves last isMarker resolved later ih =>
      intro site occurrence member
      rcases List.mem_cons.mp member with same | member
      · cases same
        exact ⟨isMarker, _, ready.settled, resolved⟩
      · exact ih (ready.splice resolved parenthesize) site occurrence member

end Sweep

namespace Fragment

/-- A run is a tour of sweeps, each over a whole sequence, and its splices are theirs.  The
operand of a splice is the part of the sequence in front of the marker; no tree in it is a
marker, and none but the first is an invisible group.  It lies behind every occurrence that the
same sweep has left untouched before: behind the marker, the head and the block behind the head,
which stand where they stood. -/
theorem front_spares_untouched (settings : Settings) (fragment : Fragment) :
    ∃ visits final, Tour settings.parenthesize fragment.children visits final ∧
      (fragment.front settings).events.filter Event.isSplice =
        (Visit.movesAll visits).filterMap (·.event? settings.parenthesize) ∧
      (∀ result, (fragment.front settings).result = .ok result →
        result = { fragment with children := settle settings final }) ∧
      ∀ visit ∈ visits, visit.moves.Pairwise Move.Spares ∧
        ∀ site occurrence, .spliced site occurrence ∈ visit.moves →
          Marker.test site.marker site.after.head? = true ∧
          site.before.reverse = occurrence.before.reverse ++ occurrence.operand ∧
          Passable (some site.marker) occurrence.operand ∧
          ∀ tree ∈ occurrence.operand.tail, tree.isInvisible = false := by
  obtain ⟨visits, final, tour, splices, -, succeeded⟩ := front_toured settings fragment
  refine ⟨visits, final, tour, splices, succeeded, ?_⟩
  intro visit member
  have sweep := tour.sweep_of_mem visit member
  have ready := Ready.start visit.trees
  refine ⟨sweep.spares ready, ?_⟩
  intro site occurrence spliced
  obtain ⟨isMarker, reach, settled, resolved⟩ := sweep.exists_resolve ready site occurrence spliced
  obtain ⟨group, -, -, cut, -⟩ := Site.resolve_parts resolved
  exact ⟨isMarker, cut, Site.passable_operand settled resolved, Site.visible_operand resolved⟩

end Fragment

end Headfirst
