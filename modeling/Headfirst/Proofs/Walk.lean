import Headfirst.Proofs.Trace

namespace Headfirst.Fronting

open Headfirst.Tree

/-! The walk over a fragment is a trace: every change it makes is a splice, made where the
scan stands, and what the progress records are these splices in their order. -/

/-- The groups behind a marker that belong to its occurrence, however malformed it is: the head, a
parenthesis group right behind the marker, and the block, a brace group right behind the head. -/
inductive OwnGroups : (after groups : List Tree) → Prop where
  | none {after : List Tree} (noHead : ∀ tree ∈ after.head?, tree.isGroup .paren = false) :
      OwnGroups after []
  | head {head : Tree} {others : List Tree} (isHead : head.isGroup .paren = true)
      (noBlock : ∀ tree ∈ others.head?, tree.isGroup .brace = false) :
      OwnGroups (head :: others) [head]
  | block {head block : Tree} {others : List Tree} (isHead : head.isGroup .paren = true)
      (isBlock : block.isGroup .brace = true) :
      OwnGroups (head :: block :: others) [head, block]

/-- An occurrence that is left untouched ends behind its groups. -/
theorem exists_ownGroups (marker : Nat) (after : List Tree) :
    ∃ groups, OwnGroups after groups ∧ untouchedEnd marker after = marker + 1 + groups.length := by
  fun_cases untouchedEnd marker after with
  | case1 => exact ⟨[], .none (by simp), rfl⟩
  | case2 head others isHead isBlock =>
      cases others with
      | nil => contradiction
      | cons block others => exact ⟨_, .block isHead isBlock, rfl⟩
  | case3 head others isHead noBlock => exact ⟨_, .head isHead (by simpa [Option.any_eq_false] using noBlock), rfl⟩
  | case4 head others noHead => exact ⟨[], .none (by simpa using noHead), rfl⟩

theorem OwnGroups.take_eq {after groups : List Tree} (own : OwnGroups after groups) :
    after.take groups.length = groups := by
  cases own <;> rfl

theorem OwnGroups.isPunct {after groups : List Tree} (own : OwnGroups after groups) :
    ∀ tree ∈ groups, tree.isPunct "::" = false := by
  cases own with
  | none => simp
  | head isHead => simpa using isPunct_of_isGroup isHead "::"
  | block isHead isBlock =>
      simpa using ⟨isPunct_of_isGroup isHead "::", isPunct_of_isGroup isBlock "::"⟩

theorem lt_untouchedEnd (marker : Nat) (after : List Tree) :
    marker < untouchedEnd marker after := by
  obtain ⟨groups, -, ends⟩ := exists_ownGroups marker after
  omega

/-- An occurrence that is left untouched goes on with groups behind its marker. -/
theorem isPunct_of_mem_untouched (marker : Nat) (after : List Tree) :
    ∀ tree ∈ after.take (untouchedEnd marker after - (marker + 1)),
      tree.isPunct "::" = false := by
  obtain ⟨groups, own, ends⟩ := exists_ownGroups marker after
  rw [ends, Nat.add_sub_cancel_left, own.take_eq]
  exact own.isPunct

/-- Where the scan of a sequence may stand.  Behind it, down to the floor, no marker is
left; between it and a floor that lies ahead stand the groups of an occurrence that was
left untouched. -/
structure Ready (floor : Nat) (before rest : List Tree) : Prop where
  settled : Settled (before.length - floor) before rest.head?
  untouched : ∀ tree ∈ rest.take (floor - before.length), tree.isPunct "::" = false

namespace Ready

variable {floor : Nat} {before after : List Tree} {tree : Tree}

theorem of_le {rest : List Tree} (reached : floor ≤ before.length)
    (settled : Settled (before.length - floor) before rest.head?) : Ready floor before rest := by
  refine ⟨settled, ?_⟩
  rw [Nat.sub_eq_zero_of_le reached, List.take_zero]
  simp

theorem start (trees : List Tree) : Ready 0 [] trees :=
  of_le (Nat.zero_le _) (Settled.nil ..)

theorem skip (ready : Ready floor before (tree :: after))
    (noMarker : Marker.test tree after.head? = false) : Ready floor (tree :: before) after := by
  by_cases reached : floor ≤ before.length
  · have reach : (tree :: before).length - floor = (before.length - floor) + 1 := by
      simp only [List.length_cons]
      omega
    refine of_le (by simp only [List.length_cons]; omega) ?_
    rw [reach]
    exact ⟨noMarker, ready.settled⟩
  · have reach : (tree :: before).length - floor = 0 := by
      simp only [List.length_cons]
      omega
    have ahead : floor - before.length = (floor - (tree :: before).length) + 1 := by
      simp only [List.length_cons]
      omega
    have groups := ready.untouched
    rw [ahead, List.take_succ_cons] at groups
    refine ⟨?_, fun other member => groups other (List.mem_cons_of_mem _ member)⟩
    rw [reach]
    intro separator
    rw [groups tree List.mem_cons_self] at separator
    contradiction

/-- A marker that is left untouched becomes the edge of the reach. -/
theorem tolerate (isMarker : Marker.test tree after.head? = true) (before : List Tree) :
    Ready (untouchedEnd before.length after) (tree :: before) after := by
  have beyond := lt_untouchedEnd before.length after
  have reach : (tree :: before).length - untouchedEnd before.length after = 0 := by
    simp only [List.length_cons]
    omega
  refine ⟨?_, isPunct_of_mem_untouched before.length after⟩
  rw [reach]
  exact fun _ => isMarker

/-- A replacement stands behind the scan as any other group. -/
theorem splice {occurrence : Occurrence} (ready : Ready floor before (tree :: after))
    (resolved : Site.resolve ⟨before, tree, after⟩ (before.length - floor) = .ok occurrence)
    (parenthesize : Bool) :
    Ready floor (occurrence.replacement parenthesize :: occurrence.before)
      occurrence.after := by
  obtain ⟨operand, taken, -, rest, -⟩ := Site.resolve_taken resolved
  simp only at taken rest
  have nonempty := (Operand.take_eq_take_length taken).2
  have count := Operand.length_of_take taken
  have within := Operand.length_le_reach (before.length - floor) before
  have positive : 0 < operand.length := List.length_pos_iff.mpr nonempty
  have shorter : occurrence.before.length = before.length - operand.length := by
    rw [rest, List.length_drop]
  have reach : (occurrence.replacement parenthesize :: occurrence.before).length - floor =
      (before.length - floor - operand.length) + 1 := by
    simp only [List.length_cons, shorter]
    omega
  have behind : Settled (before.length - floor - operand.length) occurrence.before
      (some (occurrence.replacement parenthesize)) := by
    rw [rest]
    refine (ready.settled.drop (by omega)).congr ?_
    intro nearest found
    have same := Operand.test_before_length ready.settled
      (Replacement.isInvisible_make parenthesize occurrence.operand occurrence.body
        occurrence.head) (by omega) (by rw [← count]; exact found)
    rw [count]
    exact same
  refine of_le (by simp only [List.length_cons, shorter]; omega) ?_
  rw [reach]
  exact ⟨rfl, behind⟩

end Ready

theorem siblings_follows (settings : Settings) (progress : Progress) {floor : Nat}
    {before rest : List Tree} (ready : Ready floor before rest)
    (whole : settings.tolerant = false → floor = 0) (frames : List Frame) :
    (siblings settings floor before rest progress).Follows settings
      (Frame.fill frames (before.reverse ++ rest)) progress (Frame.fill frames) := by
  fun_induction siblings settings floor before rest progress with
  | case1 floor before progress => exact ⟨[], by simpa using Led.rest rfl, rfl⟩
  | case2 floor before tree after progress isMarker site reach recorded failure resolved tolerant ih =>
      have next := ih (.tolerate isMarker before) (by simp [tolerant])
      rw [List.reverse_cons, List.append_assoc, List.singleton_append] at next
      exact next.of_same (by simp [recorded, Site.events_filter_isWork]) (by simp [recorded])
  | case3 floor before tree after progress isMarker site reach recorded failure resolved strict =>
      have all : reach = site.before.length := by
        simp [reach, site, whole (by simpa using strict)]
      rw [all] at resolved
      exact .stopped_of_same (by simp [recorded, Site.events_filter_isWork])
        (.inl ⟨site, ⟨frames, rfl⟩, isMarker, resolved⟩)
  | case4 floor before tree after progress isMarker site reach recorded occurrence resolved counted beyond =>
      exact .stopped_of_same (by simp [counted, recorded, Site.events_filter_isWork]) (.inr rfl)
  | case5 floor before tree after progress isMarker site reach recorded occurrence resolved counted within replacement ih =>
      have next := ih (ready.splice resolved settings.parenthesize) whole
      rw [List.reverse_cons, List.append_assoc, List.singleton_append] at next
      have due : Splice.Due ⟨frames, site, occurrence⟩ :=
        ⟨isMarker, reach, ready.settled, resolved⟩
      have led : Led settings.parenthesize (Frame.fill frames site.trees) progress
          [⟨frames, site, occurrence⟩]
          (Frame.fill frames (Site.spliced occurrence settings.parenthesize))
          (counted.record [.spliced occurrence replacement]) := by
        refine ⟨.splice due (.done _), ?_⟩
        simp only [recorded, counted, Progress.work_record, Progress.work_count,
          Site.events_filter_isWork, List.append_nil]
        rfl
      exact next.after led (by simp [counted, recorded])
  | case6 floor before tree after progress noMarker ih =>
      have next := ih (ready.skip (by simpa using noMarker)) whole
      rwa [List.reverse_cons, List.append_assoc, List.singleton_append] at next

/-- A pass over a sequence makes splices in it and below it, and so does a pass over the
groups to the right of trees that are done. -/
theorem pass_follows (settings : Settings) :
    (∀ trees progress frames,
      (sequence settings trees progress).Follows settings
        (Frame.fill frames trees) progress (Frame.fill frames)) ∧
    ∀ trees progress frames left,
      (below settings trees progress).Follows settings
        (Frame.fill frames (left ++ trees)) progress
        fun done => Frame.fill frames (left ++ done) := by
  apply pass_induction
  case scan =>
      intro trees ih progress frames
      rw [sequence_eq]
      refine (siblings_follows settings progress (.start trees) (fun _ => rfl) frames).bind ?_
      intro scanned between done
      have smaller := sizeAll_siblings_start done
      exact ih scanned smaller between frames []
  case nil =>
      intro progress frames left
      rw [below_nil]
      exact ⟨[], .rest rfl, rfl⟩
  case leaf =>
      intro token trees ih progress frames left
      -- the token joins what is done
      have right := ih progress frames (left ++ [.leaf token])
      rw [List.append_assoc] at right
      rw [below_leaf]
      refine right.bind ?_
      intro result after done
      rw [List.append_assoc]
      exact ⟨[], .rest rfl, rfl⟩
  case group =>
      intro bracket children trees ihInside ihRight progress frames left
      -- inside the group there is one more frame
      have inside := ihInside progress (⟨left, bracket, trees⟩ :: frames)
      rw [below_group]
      refine inside.bind ?_
      intro inner between done
      have right := ihRight between frames (left ++ [.group bracket inner])
      rw [List.append_assoc] at right
      refine right.bind ?_
      intro result after finished
      rw [List.append_assoc]
      exact ⟨[], .rest rfl, rfl⟩

theorem sequence_follows (settings : Settings) (trees : List Tree) (progress : Progress) :
    (sequence settings trees progress).Follows settings trees progress id :=
  (pass_follows settings).1 trees progress []

end Headfirst.Fronting
