import Headfirst.Proofs.Arrangement
import Headfirst.Proofs.Steps
import Headfirst.Proofs.Sweeps

namespace Headfirst

open Headfirst.Tree Headfirst.Pair

/-! A run that puts operands in parentheses and one that does not.  They find the same
occurrences and report the same failures; only the parentheses differ. -/

/-! The replacement. -/

namespace Replacement

variable {operand : List Pair}

/-- An operand that both runs have put into a replacement. -/
theorem wrapped_twin (nonempty : operand ≠ []) (twins : ∀ pair ∈ operand, Twin pair)
    (alike : ∀ pair ∈ operand, pair.IsAlike) :
    Twin (wrapped true (operand.map Prod.fst), wrapped false (operand.map Prod.snd)) := by
  obtain ⟨new, left, right, same⟩ := exists_of_bare (bare_bareOperand (operand.map Prod.fst))
    (bare_bareOperand (operand.map Prod.snd))
  have twinsNew := twins_of_bare same twins
  have alikeNew := alike_of_faces (faces_of_bare same) alike
  have length : new.length = operand.length := by simpa using congrArg List.length same
  simp only [wrapped, left, right, Bool.true_and, Bool.false_and, Bool.false_eq_true, if_false]
  cases new with
  | nil =>
      rw [List.length_nil] at length
      exact absurd (List.length_eq_zero_iff.mp length.symm) nonempty
  | cons pair others =>
      cases others with
      | cons second others =>
          simp only [List.map_cons, needsParens]
          rw [if_pos (by simp)]
          exact .wrapped rfl rfl twinsNew (ordered_of_alike (by simp) alikeNew)
      | nil =>
          have twin := twinsNew pair List.mem_cons_self
          have same := alikeNew pair List.mem_cons_self
          simp only [List.map_cons, List.map_nil, needsParens]
          split
          · rename_i invisible
            cases twin with
            | leaf => contradiction
            | wrapped paren | kept paren =>
                rw [isInvisible, Tree.isGroup, paren] at invisible
                contradiction
            | @group inner outer pairs equal twins ordered alike =>
                have inside : inner.delimiter = .invisible := by
                  simpa [isInvisible, Tree.isGroup] using invisible
                have delimiter := Bracket.delimiter_of_bare equal
                exact .kept rfl inside (delimiter ▸ inside) twins ordered
          · exact twin

end Replacement

/-- Trees that two runs hold side by side. -/
structure Row (pairs : List Pair) : Prop where
  twins : ∀ pair ∈ pairs, Twin pair
  ordered : Ordered [] pairs

namespace Occurrence

/-- The replacements that both runs put in place of an occurrence. -/
theorem replacement_twin {before operand body : List Pair} {group marker : Pair} {left right : Head}
    (nonempty : operand ≠ []) (twinsOperand : ∀ pair ∈ operand, Twin pair)
    (alike : ∀ pair ∈ operand, pair.IsAlike) (twin : Twin group) (alikeGroup : group.IsAlike)
    (parsed : Head.ofGroup group.1 = .ok left) (parsedToo : Head.ofGroup group.2 = .ok right)
    (twinsBody : ∀ pair ∈ body, Twin pair) (ordered : Ordered (group :: marker :: before) body)
    (shielded : Body.Shielded (body.map Prod.fst)) (rest restToo more moreToo : List Tree) :
    let shown : Occurrence := ⟨rest, operand.map Prod.fst, left, body.map Prod.fst, more⟩
    let hidden : Occurrence := ⟨restToo, operand.map Prod.snd, right, body.map Prod.snd, moreToo⟩
    Twin (shown.replacement true, hidden.replacement false) ∧
      IsAlike (shown.replacement true, hidden.replacement false) := by
  intro shown hidden
  have isParen := Head.ofGroup_isGroup parsed
  have ends := Head.endsHead_ofGroup parsed
  have begins := Head.begins_ofGroup parsed
  have trees := Head.ofGroup_trees parsed
  have treesToo := Head.ofGroup_trees parsedToo
  cases twin with
  | leaf => contradiction
  | wrapped paren invisible | kept paren inside invisible =>
      have isParenToo := Head.ofGroup_isGroup parsedToo
      rw [Tree.isGroup, invisible] at isParenToo
      contradiction
  | @group inner outer heads same twinsHead orderedHead alikeHead =>
      have visible : inner.delimiter ≠ .invisible := by
        intro invisible
        rw [Tree.isGroup, invisible] at isParen
        contradiction
      have alikeHeads := alikeHead visible
      let wrap : Pair := (Replacement.wrapped true (operand.map Prod.fst),
        Replacement.wrapped false (operand.map Prod.snd))
      have twinWrap : Twin wrap := Replacement.wrapped_twin nonempty twinsOperand alike
      let inside := heads ++ wrap :: body
      have twinsInside : ∀ pair ∈ inside, Twin pair :=
        List.forall_mem_append.mpr ⟨twinsHead, List.forall_mem_cons.mpr ⟨twinWrap, twinsBody⟩⟩
      have orderedInside : Ordered [] inside := by
        refine ordered_append.mpr ⟨orderedHead, ⟨.inr ?_, fun _ => ?_⟩, ?_⟩
        · obtain ⟨first, others, begin, -⟩ := begins
          have some : heads ≠ [] := by
            rintro rfl
            rw [trees] at begin
            contradiction
          have last := ends (heads.getLast some).1
            (by rw [trees, Tree.children, List.getLast?_map, List.getLast?_eq_some_getLast some]; rfl)
          rw [List.append_nil, List.head?_reverse, List.getLast?_eq_some_getLast some]
          exact last
        · exact clear_of_alike (by simpa using alikeHeads)
        · exact ordered_of_shielded ordered (fun impossible => by contradiction) shielded
      have here : shown.head.trees ++ Replacement.wrapped true shown.operand :: shown.body =
          inside.map Prod.fst := by
        simp [inside, wrap, shown, trees, Tree.children]
      have there : hidden.head.trees ++ Replacement.wrapped false hidden.operand :: hidden.body =
          inside.map Prod.snd := by
        simp [inside, wrap, hidden, treesToo, Tree.children]
      obtain ⟨new, first, second, equal⟩ := exists_of_bare (bare_spaced (inside.map Prod.fst))
        (bare_spaced (inside.map Prod.snd))
      have loc : firstLoc (operand.map Prod.fst) = firstLoc (operand.map Prod.snd) := by
        rw [← firstLoc_face, map_face alike, firstLoc_face]
      rw [replacement, replacement, Replacement.make, Replacement.make, here, there, first, second]
      have orderedNew := ordered_of_faces (faces_of_bare equal) orderedInside
      refine ⟨.group (by simp only [Bracket.bare, shown, hidden, loc])
        (twins_of_bare equal twinsInside) orderedNew (fun visible => absurd rfl visible), ?_⟩
      simp only [IsAlike, face_group, shown, hidden, loc]

end Occurrence

/-- Progress with the same number of splices and the same warnings. -/
structure Progress.Level (left right : Progress) : Prop where
  splices : left.splices = right.splices
  tolerated : left.tolerated = right.tolerated

namespace Progress.Level

variable {left right : Progress}

theorem record (level : left.Level right) (events eventsToo : List Event) :
    (left.record events).Level (right.record eventsToo) :=
  ⟨level.splices, level.tolerated⟩

theorem count (level : left.Level right) : left.count.Level right.count :=
  ⟨congrArg (· + 1) level.splices, level.tolerated⟩

theorem tolerate (level : left.Level right) (failure : Failure) :
    (left.tolerate failure).Level (right.tolerate failure) := by
  refine ⟨by simpa using level.splices, ?_⟩
  rw [tolerated_tolerate, tolerated_tolerate, level.tolerated]

end Progress.Level

namespace Outcome

variable {α β γ δ : Type}

/-- Outcomes of two runs: related values, or the same failure. -/
inductive Level (related : α → β → Prop) : Outcome α → Outcome β → Prop where
  | done {value : α} {other : β} {left right : Progress} (holds : related value other)
      (level : left.Level right) : Level related (.done value left) (.done other right)
  | stopped (failure : Failure) {left right : Progress} (level : left.Level right) :
      Level related (.stopped failure left) (.stopped failure right)

theorem Level.mono {related wider : α → β → Prop} {left : Outcome α} {right : Outcome β}
    (level : left.Level related right)
    (wide : ∀ value other, related value other → wider value other) :
    left.Level wider right := by
  cases level with
  | done holds level => exact .done (wide _ _ holds) level
  | stopped failure level => exact .stopped failure level

theorem bind_bind (outcome : Outcome α) (next : α → Progress → Outcome β)
    (last : β → Progress → Outcome γ) :
    (outcome.bind next).bind last =
      outcome.bind fun value after => (next value after).bind last := by
  cases outcome <;> rfl

theorem Level.bind {related : α → β → Prop} {final : γ → δ → Prop} {left : Outcome α}
    {right : Outcome β} (agree : left.Level related right) {next : α → Progress → Outcome γ}
    {nextToo : β → Progress → Outcome δ}
    (later : ∀ value other after afterToo, left = .done value after →
      right = .done other afterToo → related value other → after.Level afterToo →
      (next value after).Level final (nextToo other afterToo)) :
    (left.bind next).Level final (right.bind nextToo) := by
  cases agree with
  | done holds level => exact later _ _ _ _ rfl rfl holds level
  | stopped failure level => exact .stopped failure level

end Outcome

def Settings.parenthesizing (settings : Settings) (parenthesize : Bool) : Settings :=
  { settings with parenthesize }

/-- The sequences that two runs come to from a row: again a row, without parentheses around
operands in it if there were none. -/
inductive Row.Leads (start : List Pair) : List Tree → List Tree → Prop where
  | intro {pairs : List Pair} (row : Row pairs)
      (alike : (∀ pair ∈ start, pair.IsAlike) → ∀ pair ∈ pairs, pair.IsAlike) :
      Row.Leads start (pairs.map Prod.fst) (pairs.map Prod.snd)

theorem Row.Leads.mono {start other : List Pair} {left right : List Tree}
    (leads : Row.Leads other left right)
    (alike : (∀ pair ∈ start, pair.IsAlike) → ∀ pair ∈ other, pair.IsAlike) :
    Row.Leads start left right := by
  cases leads with
  | intro row result => exact .intro row fun same => result (alike same)

/-- The row after a splice. -/
theorem Row.splice {others operand body after : List Pair} {marker group replacement : Pair}
    (row : Row (others.reverse ++ (operand ++ marker :: group :: (body ++ after))))
    (isGroup : group.1.endsHead = false) (ends : EndsIn Body.isBlock (body.map Prod.fst))
    (clear : Clear others)
    (twin : Twin replacement) (alike : replacement.IsAlike)
    (noPath : replacement.1.isPunct "::" = false) :
    Row (others.reverse ++ replacement :: after) := by
  obtain ⟨twinsBefore, twins⟩ := List.forall_mem_append.mp row.twins
  have twinsAfter : ∀ pair ∈ after, Twin pair := fun pair member => twins pair (by simp [member])
  refine ⟨List.forall_mem_append.mpr
    ⟨twinsBefore, List.forall_mem_cons.mpr ⟨twin, twinsAfter⟩⟩, ?_⟩
  obtain ⟨orderedBefore, ordered⟩ := ordered_append.mp row.ordered
  obtain ⟨-, orderedMarker⟩ := ordered_append.mp ordered
  obtain ⟨-, orderedAfter⟩ := ordered_append.mp orderedMarker.2.2
  refine ordered_append.mpr ⟨orderedBefore, ⟨.inl alike, ?_⟩, ?_⟩
  · intro separator
    rw [noPath] at separator
    contradiction
  · refine ordered_shift orderedAfter ?_ fun _ => .inr ⟨alike, ?_⟩
    · intro anchored
      cases last : body.getLast? with
      | none =>
          rw [List.getLast?_eq_none_iff.mp last] at anchored
          simp [isGroup] at anchored
      | some block =>
          have isBlock : Body.isBlock block.1 = true := ends block.1 (by simp [last])
          obtain ⟨bracket, children, isGroup, -⟩ := eq_group_of_isGroup isBlock
          rw [List.head?_append, List.head?_reverse, last, Option.some_or, Option.any_some,
            isGroup] at anchored
          contradiction
    · rw [List.reverse_reverse, List.append_nil]
      exact clear

/-- The row after two runs have spliced what they divided at one marker. -/
theorem Row.divided {before rest : List Pair} {marker : Pair} {reach : Nat}
    {left right : Occurrence} (row : Row (before.reverse ++ marker :: rest))
    (isPath : marker.1.isPunct "::" = true)
    (resolved : Site.resolve ⟨before.map Prod.fst, marker.1, rest.map Prod.fst⟩ reach = .ok left)
    (divided : Site.Divided before rest left right) :
    ∃ others after : List Pair, left.before = others.map Prod.fst ∧
      right.before = others.map Prod.snd ∧ left.after = after.map Prod.fst ∧
      right.after = after.map Prod.snd ∧ after.length < rest.length ∧
      let row : List Pair :=
        ((left.replacement true, right.replacement false) :: others).reverse ++ after
      Row row ∧ ((∀ pair ∈ before.reverse ++ marker :: rest, pair.IsAlike) →
        ∀ pair ∈ row, pair.IsAlike) := by
  obtain ⟨twinsBefore, twinsAfter⟩ := List.forall_mem_append.mp row.twins
  obtain ⟨-, twinsAfter⟩ := List.forall_mem_cons.mp twinsAfter
  obtain ⟨-, ordered⟩ := ordered_append.mp row.ordered
  rw [List.reverse_reverse, List.append_nil] at ordered
  have ends := Site.endsIn_body resolved
  cases divided with
  | @intro others operand body after group headLeft headRight nonempty alikeOperand clear parsed
      parsedToo shielded =>
      have twinsOperand : ∀ pair ∈ operand, Twin pair := fun pair member =>
        twinsBefore pair (by simp [member])
      obtain ⟨twinGroup, twinsAfter⟩ := List.forall_mem_cons.mp twinsAfter
      obtain ⟨twinsBody, -⟩ := List.forall_mem_append.mp twinsAfter
      obtain ⟨twinNew, alikeNew⟩ := Occurrence.replacement_twin nonempty
        twinsOperand alikeOperand twinGroup
        (ordered.2.1.isAlike_of_path isPath) parsed parsedToo twinsBody
        (ordered_append.mp ordered.2.2).1 shielded (others.map Prod.fst)
        (others.map Prod.snd) (after.map Prod.fst) (after.map Prod.snd)
      have isGroup : group.1.endsHead = false := by
        obtain ⟨bracket, children, isGroup, -⟩ := eq_group_of_isGroup (Head.ofGroup_isGroup parsed)
        rw [isGroup]
        rfl
      have old : (operand.reverse ++ others).reverse ++ marker :: group :: (body ++ after) =
          others.reverse ++ (operand ++ marker :: group :: (body ++ after)) := by simp
      rw [old] at row ⊢
      have new := row.splice isGroup ends clear twinNew alikeNew rfl
      refine ⟨others, after, rfl, rfl, rfl, rfl, ?_, ?_⟩
      · simp only [List.length_cons, List.length_append]
        omega
      · rw [List.reverse_cons, List.append_assoc, List.singleton_append]
        refine ⟨new, fun alike => ?_⟩
        simp only [List.forall_mem_append, List.forall_mem_cons] at alike ⊢
        obtain ⟨before, -, -, -, -, behind⟩ := alike
        exact ⟨before, alikeNew, behind⟩

namespace Fronting

variable (settings : Settings)

theorem untouchedEnd_twin (marker : Nat) {before after : List Pair} {separator : Pair}
    (twins : ∀ pair ∈ after, Twin pair) (isPath : separator.1.isPunct "::" = true)
    (ordered : Ordered (separator :: before) after) :
    untouchedEnd marker (after.map Prod.fst) = untouchedEnd marker (after.map Prod.snd) := by
  cases after with
  | nil => rfl
  | cons first after =>
      rw [List.forall_mem_cons] at twins
      have alike := ordered.1.isAlike_of_path isPath
      have block : (after.map Prod.fst).head?.any (·.isGroup .brace) =
          (after.map Prod.snd).head?.any (·.isGroup .brace) := by
        cases after with
        | nil => rfl
        | cons second after => exact (twins.2 second List.mem_cons_self).isBlock
      rw [List.map_cons, List.map_cons, untouchedEnd, untouchedEnd, alike.isGroup, block]

theorem siblings_twin (floor : Nat) {before rest : List Pair} (row : Row (before.reverse ++ rest))
    {left right : Progress} (level : left.Level right) :
    (siblings (settings.parenthesizing true) floor (before.map Prod.fst) (rest.map Prod.fst)
        left).Level (Row.Leads (before.reverse ++ rest))
      (siblings (settings.parenthesizing false) floor (before.map Prod.snd) (rest.map Prod.snd)
        right) := by
  cases rest with
  | nil =>
      rw [List.append_nil] at row ⊢
      rw [List.map_nil, List.map_nil, siblings_nil, siblings_nil, ← List.map_reverse,
        ← List.map_reverse]
      exact .done (.intro row id) level
  | cons pair rest =>
      obtain ⟨twinsBefore, twinsRest⟩ := List.forall_mem_append.mp row.twins
      have twinsBefore : ∀ pair ∈ before, Twin pair := by simpa using twinsBefore
      obtain ⟨twin, twinsAfter⟩ := List.forall_mem_cons.mp twinsRest
      have whole : before.reverse ++ pair :: rest = (pair :: before).reverse ++ rest := by simp
      have same := twin.test twinsAfter
      rw [List.map_cons, List.map_cons]
      cases isMarker : Marker.test pair.1 (rest.map Prod.fst).head? with
      | false =>
          rw [siblings_skip isMarker, siblings_skip (same ▸ isMarker), whole]
          exact siblings_twin floor (whole ▸ row) level
      | true =>
          have isMarkerToo := same ▸ isMarker
          have isPath : pair.1.isPunct "::" = true := by
            rw [Marker.test, Bool.and_eq_true] at isMarker
            exact isMarker.1
          obtain ⟨-, ordered⟩ := ordered_append.mp row.ordered
          rw [List.reverse_reverse, List.append_nil] at ordered
          have alike := twin.isAlike_of_anyToken isPath
          have reach (side : Pair → Tree) :
              (before.map side).length - floor = before.length - floor := by
            rw [List.length_map]
          have resolved := Site.resolve_twin (before.length - floor) twinsBefore twin twinsAfter
            isPath ordered
          generalize first : Site.resolve ⟨before.map Prod.fst, pair.1, rest.map Prod.fst⟩
            (before.length - floor) = one at resolved
          generalize second : Site.resolve ⟨before.map Prod.snd, pair.2, rest.map Prod.snd⟩
            (before.length - floor) = other at resolved
          rw [← reach] at first second
          cases resolved with
          | error failure =>
              cases tolerant : settings.tolerant with
              | true =>
                  have shown : (settings.parenthesizing true).tolerant = true := tolerant
                  have hidden : (settings.parenthesizing false).tolerant = true := tolerant
                  rw [siblings_leave shown isMarker first, siblings_leave hidden isMarkerToo second,
                    List.length_map, List.length_map,
                    ← untouchedEnd_twin before.length twinsAfter isPath ordered.2, whole]
                  exact siblings_twin _ (whole ▸ row) ((level.record _ _).tolerate failure)
              | false =>
                  have shown : (settings.parenthesizing true).tolerant = false := tolerant
                  have hidden : (settings.parenthesizing false).tolerant = false := tolerant
                  rw [siblings_stop shown isMarker first, siblings_stop hidden isMarkerToo second]
                  exact .stopped failure (level.record _ _)
          | ok divided =>
              obtain ⟨others, after, beforeLeft, beforeRight, afterLeft, afterRight, shorter, new,
                alikeNew⟩ := row.divided isPath first divided
              by_cases room : left.splices + 1 ≤ settings.maxSplices
              · have shown : left.splices + 1 ≤ (settings.parenthesizing true).maxSplices := room
                have hidden : right.splices + 1 ≤ (settings.parenthesizing false).maxSplices :=
                  level.splices ▸ room
                rw [siblings_splice isMarker first shown,
                  siblings_splice isMarkerToo second hidden, beforeLeft, beforeRight, afterLeft,
                  afterRight]
                refine (@siblings_twin floor (_ :: others) after new _ _
                  (((level.record _ _).count).record _ _)).mono ?_
                intro value other leads
                exact leads.mono alikeNew
              · have shown : (settings.parenthesizing true).maxSplices < left.splices + 1 :=
                  Int.not_le.mp room
                have hidden : (settings.parenthesizing false).maxSplices < right.splices + 1 :=
                  level.splices ▸ Int.not_le.mp room
                rw [siblings_exceed isMarker first shown,
                  siblings_exceed isMarkerToo second hidden, alike.span]
                exact .stopped _ (level.record _ _).count
termination_by rest.length
decreasing_by
  all_goals subst_vars
  all_goals rw [List.length_cons]
  all_goals omega

theorem sequence_group (bracket : Bracket) (children : List Tree) (progress : Progress) :
    sequence settings [.group bracket children] progress =
      (sequence settings children progress).bind fun inner => .done [.group bracket inner] := by
  have still : siblings settings 0 [] [.group bracket children] progress =
      .done [.group bracket children] progress := siblings_still ⟨rfl, trivial⟩
  rw [sequence_eq, still, Outcome.bind, below_group]
  cases sequence settings children progress with
  | stopped failure after => rfl
  | done inner after => rw [Outcome.bind, Outcome.bind, below_nil]; rfl

/-- What two runs leave of the groups of a row. -/
inductive Below (start : List Pair) : List Tree → List Tree → Prop where
  | intro {pairs : List Pair} (twins : ∀ pair ∈ pairs, Twin pair)
      (same : pairs.map faces = start.map faces) :
      Below start (pairs.map Prod.fst) (pairs.map Prod.snd)

theorem Below.cons {pair new : Pair} {pairs : List Pair} {left right : List Tree}
    (below : Below pairs left right) (twin : Twin new) (same : new.faces = pair.faces) :
    Below (pair :: pairs) (new.1 :: left) (new.2 :: right) := by
  cases below with
  | @intro rest twins equal =>
      have longer := @Below.intro (pair :: pairs) (new :: rest)
        (List.forall_mem_cons.mpr ⟨twin, twins⟩) (by rw [List.map_cons, List.map_cons, same, equal])
      exact longer

theorem Below.leads {start pairs : List Pair} {left right : List Tree}
    (below : Below pairs left right) (row : Row pairs)
    (alike : (∀ pair ∈ start, pair.IsAlike) → ∀ pair ∈ pairs, pair.IsAlike) :
    Row.Leads start left right := by
  cases below with
  | intro twins same =>
      exact .intro ⟨twins, ordered_of_faces same row.ordered⟩ fun holds =>
        alike_of_faces same (alike holds)

mutual

theorem sequence_twin {pairs : List Pair} (row : Row pairs) {left right : Progress}
    (level : left.Level right) :
    (sequence (settings.parenthesizing true) (pairs.map Prod.fst) left).Level (Row.Leads pairs)
      (sequence (settings.parenthesizing false) (pairs.map Prod.snd) right) := by
  rw [sequence_eq, sequence_eq]
  refine (@siblings_twin settings 0 [] pairs row _ _ level).bind ?_
  rintro value other after afterToo done - leads level
  cases leads with
  | intro new alike =>
      have smaller := sizeAll_siblings_start done
      exact (below_twin new.twins level).mono fun _ _ below => below.leads new alike
termination_by 2 * sizeAll (pairs.map Prod.fst) + 1
decreasing_by
  omega

theorem below_twin {pairs : List Pair} (twins : ∀ pair ∈ pairs, Twin pair) {left right : Progress}
    (level : left.Level right) :
    (below (settings.parenthesizing true) (pairs.map Prod.fst) left).Level (Below pairs)
      (below (settings.parenthesizing false) (pairs.map Prod.snd) right) := by
  cases whole : pairs with
  | nil =>
      rw [List.map_nil, List.map_nil, below_nil, below_nil]
      exact .done (@Below.intro [] [] (by simp) rfl) level
  | cons pair pairs =>
      rw [whole, List.forall_mem_cons] at twins
      obtain ⟨twin, others⟩ := twins
      rw [List.map_cons, List.map_cons]
      cases twin with
      | leaf same =>
          rw [below_leaf, below_leaf]
          refine (below_twin others level).bind ?_
          rintro value other after afterToo - - below level
          exact .done (below.cons (.leaf same) rfl) level
      | group same twinsInside ordered alike =>
          rw [below_group, below_group]
          refine (sequence_twin ⟨twinsInside, ordered⟩ level).bind ?_
          rintro value other after afterToo - - ⟨row, kept⟩ level
          refine (below_twin others level).bind ?_
          rintro value other after afterToo - - below level
          exact .done (below.cons
            (.group same row.twins row.ordered fun visible => kept (alike visible)) rfl) level
      | wrapped paren invisible twinsInside ordered =>
          rw [below_group, below_group]
          refine (sequence_twin ⟨twinsInside, ordered⟩ level).bind ?_
          rintro value other after afterToo - - ⟨row, -⟩ level
          refine (below_twin others level).bind ?_
          rintro value other after afterToo - - below level
          exact .done (below.cons (.wrapped paren invisible row.twins row.ordered) rfl) level
      | kept paren inside invisible twinsInside ordered =>
          rw [below_group, below_group, sequence_group, Outcome.bind_bind]
          refine (sequence_twin ⟨twinsInside, ordered⟩ level).bind ?_
          rintro value other after afterToo - - ⟨row, -⟩ level
          refine (below_twin others level).bind ?_
          rintro value other after afterToo - - below level
          exact .done (below.cons (.kept paren inside invisible row.twins row.ordered) rfl) level
termination_by 2 * sizeAll (pairs.map Prod.fst)
decreasing_by
  all_goals
    simp only [whole, List.map_cons, sizeAll, size]
    omega

end

/-- Sequences that two runs come to with the same number of passes. -/
inductive Ends : List Tree × Nat → List Tree × Nat → Prop where
  | intro {pairs : List Pair} (twins : ∀ pair ∈ pairs, Twin pair) (passes : Nat) :
      Ends (pairs.map Prod.fst, passes) (pairs.map Prod.snd, passes)

theorem fixpoint_twin (span : Span) (pass markers : Nat) {pairs : List Pair} (row : Row pairs)
    (same : markersAll (pairs.map Prod.fst) = markersAll (pairs.map Prod.snd))
    {left right : Progress} (level : left.Level right) :
    (fixpoint (settings.parenthesizing true) span pass markers (pairs.map Prod.fst) left).Level Ends
      (fixpoint (settings.parenthesizing false) span pass markers (pairs.map Prod.snd) right) := by
  by_cases spent : settings.maxPasses ≤ pass
  · have shown : (settings.parenthesizing true).maxPasses ≤ pass := spent
    have hidden : (settings.parenthesizing false).maxPasses ≤ pass := spent
    rw [fixpoint_spent _ shown, fixpoint_spent _ hidden]
    exact .stopped _ level
  · have shown : ¬ (settings.parenthesizing true).maxPasses ≤ pass := spent
    have hidden : ¬ (settings.parenthesizing false).maxPasses ≤ pass := spent
    rw [fixpoint_eq _ shown, fixpoint_eq _ hidden]
    refine (sequence_twin settings row level).bind ?_
    rintro value other after afterToo done doneToo leads levelAfter
    have splices : after.splices - left.splices = afterToo.splices - right.splices := by
      rw [level.splices, levelAfter.splices]
    have markers : markersAll value = markersAll other := by
      have exact := markersAll_sequence done
      have exactToo := markersAll_sequence doneToo
      omega
    have levelPass := levelAfter.record [.passDone (pass + 1) (after.splices - left.splices)]
      [.passDone (pass + 1) (after.splices - left.splices)]
    cases leads with
    | intro new alike =>
        simp only [← splices, ← markers]
        split
        · exact .done (.intro new.twins _) levelPass
        · split
          · exact .stopped _ levelPass
          · split
            · exact .done (.intro new.twins _) levelPass
            · exact fixpoint_twin span (pass + 1) _ new markers levelPass
termination_by (settings.maxPasses - pass).toNat

end Fronting

/-! The whole run. -/

namespace Pair

def same (tree : Tree) : Pair :=
  (tree, tree)

theorem alike_same (trees : List Tree) : ∀ pair ∈ trees.map same, pair.IsAlike := by
  simp [same, IsAlike]

theorem map_same (trees : List Tree) :
    (trees.map same).map Prod.fst = trees ∧ (trees.map same).map Prod.snd = trees := by
  constructor <;> simp [same, Function.comp_def]

end Pair

mutual

theorem twin_same : ∀ tree : Tree, Twin (.same tree)
  | .leaf token => .leaf rfl
  | .group bracket children => by
      have twin := @Twin.group bracket bracket (children.map Pair.same) rfl (twins_same children)
        (ordered_of_alike (by simp) (alike_same children)) fun _ => alike_same children
      rwa [(map_same children).1, (map_same children).2] at twin

theorem twins_same : ∀ trees : List Tree, ∀ pair ∈ trees.map Pair.same, Twin pair
  | [] => by simp
  | tree :: trees => List.forall_mem_cons.mpr ⟨twin_same tree, twins_same trees⟩

end

theorem bareTokens_map {pairs : List Pair}
    (same : ∀ pair ∈ pairs, pair.1.tokens.map Token.bare = pair.2.tokens.map Token.bare) :
    bareTokens (pairs.map Prod.fst) = bareTokens (pairs.map Prod.snd) := by
  induction pairs with
  | nil => rfl
  | cons pair pairs ih =>
      rw [List.forall_mem_cons] at same
      rw [List.map_cons, List.map_cons, bareTokens_cons, bareTokens_cons, same.1, ih same.2]

theorem Twin.tokens {pair : Pair} (twin : Twin pair) :
    pair.1.tokens.map Token.bare = pair.2.tokens.map Token.bare := by
  induction twin with
  | leaf same => exact congrArg ([·]) same
  | group same twins ordered alike ih => exact bareTokens_map ih
  | wrapped paren invisible twins ordered ih => exact bareTokens_map ih
  | kept paren inside invisible twins ordered ih =>
      have inner := bareTokens_map ih
      rw [Tree.tokens, tokensAll, tokensAll, List.append_nil]
      exact inner

/-- Parenthesizing operands changes nothing but parentheses.  With and without it, a run
fails alike, or succeeds with the same tokens, and makes the same number of splices and
passes with the same warnings. -/
theorem Fragment.front_parenthesizing (settings : Settings) (fragment : Fragment) :
    let shown := fragment.front (settings.parenthesizing true)
    let hidden := fragment.front (settings.parenthesizing false)
    shown.splices = hidden.splices ∧ shown.passes = hidden.passes ∧
      shown.tolerated = hidden.tolerated ∧
      ((∃ failure, shown.result = .error failure ∧ hidden.result = .error failure) ∨
        ∃ result other, shown.result = .ok result ∧ hidden.result = .ok other ∧
          result.bracket = other.bracket ∧
          bareTokens result.children = bareTokens other.children) := by
  intro shown hidden
  by_cases deep : Fronting.maxDepth < fragment.tree.depth
  · have same : shown = hidden := (front_tooDeep deep).trans (front_tooDeep deep).symm
    rw [same]
    exact ⟨rfl, rfl, rfl, .inl ⟨⟨.treeTooDeep, fragment.tree.span, none⟩,
      by simp [hidden, front_tooDeep deep]⟩⟩
  · have shallow := Nat.not_lt.mp deep
    have row : Row (fragment.children.map Pair.same) :=
      ⟨twins_same fragment.children, ordered_of_alike (by simp) (alike_same fragment.children)⟩
    obtain ⟨first, second⟩ := map_same fragment.children
    have level := Fronting.fixpoint_twin settings fragment.tree.span 0
      (markersAll fragment.children) row (by rw [first, second])
      (⟨rfl, rfl⟩ : fragment.begun.Level fragment.begun)
    rw [first, second] at level
    generalize here : Fronting.fixpoint (settings.parenthesizing true) fragment.tree.span 0
      (markersAll fragment.children) fragment.children fragment.begun = outcome at level
    generalize there : Fronting.fixpoint (settings.parenthesizing false) fragment.tree.span 0
      (markersAll fragment.children) fragment.children fragment.begun = outcomeToo at level
    cases level with
    | stopped failure level =>
        simp only [shown, hidden, front_of_stopped shallow here, front_of_stopped shallow there]
        exact ⟨level.splices, rfl, level.tolerated, .inl ⟨failure, rfl, rfl⟩⟩
    | done ends level =>
        cases ends with
        | @intro pairs twins passes =>
            simp only [shown, hidden, front_of_done shallow here, front_of_done shallow there]
            refine ⟨level.splices, trivial, level.tolerated, .inr ⟨_, _, rfl, rfl, rfl, ?_⟩⟩
            rw [bareTokens_settle, bareTokens_settle]
            exact bareTokens_map fun pair member => (twins pair member).tokens

end Headfirst
