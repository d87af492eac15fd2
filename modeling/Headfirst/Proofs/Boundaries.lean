import Headfirst.Proofs.Reading
import Headfirst.Proofs.Sequels

namespace Headfirst

open Headfirst.Tree

/-! Where the operand of a marker starts, by the places in its sequence.

The scan for an operand goes back from tree to tree.  Where it stops can be said without it: the
operand is the one stretch in front of the marker that holds nothing at which the scan would stop,
and that cannot be extended. -/

namespace Operand

variable {trees : List Tree} {tree next : Tree} {floor free stop start place : Nat}

/-- The siblings in front of a place, nearest first. -/
def front (trees : List Tree) (place : Nat) : List Tree :=
  (trees.take place).reverse

theorem front_succ (stands : trees[place]? = some tree) :
    front trees (place + 1) = tree :: front trees place := by
  rw [front, List.take_add_one, stands, List.reverse_append]
  rfl

theorem length_front (within : place ≤ trees.length) : (front trees place).length = place := by
  rw [front, List.length_reverse, List.length_take, Nat.min_eq_left within]

theorem exists_of_succ (stands : trees[place + 1]? = some next) :
    ∃ tree, trees[place]? = some tree := by
  obtain ⟨within, -⟩ := List.getElem?_eq_some_iff.mp stands
  exact ⟨_, List.getElem?_eq_getElem (Nat.lt_of_succ_lt within)⟩

/-! Block statements. -/

/-- Places in front of which a statement has ended, by a `;` or a block, or there is nothing. -/
inductive BehindStatement (trees : List Tree) : (place : Nat) → Prop where
  | first : BehindStatement trees 0
  | behind {place : Nat} {tree : Tree} (stands : trees[place]? = some tree)
      (ends : tree.isPunct ";" = true ∨ tree.isGroup .brace = true) :
      BehindStatement trees (place + 1)

/-- The place of a label: a lifetime and a colon behind it. -/
structure IsLabel (trees : List Tree) (place : Nat) : Prop where
  named : ∃ lifetime, trees[place]? = some lifetime ∧ lifetime.isLifetime = true
  marked : ∃ colon, trees[place + 1]? = some colon ∧ colon.isPunct ":" = true

/-- Places at which a statement starts, behind its label if it has one. -/
inductive StartsStatement (trees : List Tree) : (place : Nat) → Prop where
  | plain {place : Nat} (behind : BehindStatement trees place) : StartsStatement trees place
  | labelled {place : Nat} (behind : BehindStatement trees place) (label : IsLabel trees place) :
      StartsStatement trees (place + 2)

/-- The block keyword nearest to a place, with no terminator in between. -/
structure NearestKeyword (trees : List Tree) (place keyword : Nat) : Prop where
  before : keyword < place
  opens : ∃ tree, trees[keyword]? = some tree ∧ tree.isKeywordIn blockKeywords = true
  quiet : ∀ between tree, keyword < between → between < place → trees[between]? = some tree →
    isTerminator tree = false ∧ tree.isKeywordIn blockKeywords = false

/-- A brace group at the end of a block statement: no punctuation follows it, and the nearest block
keyword before it opens a statement. -/
structure ClosesBlock (trees : List Tree) (place : Nat) : Prop where
  isBlock : ∃ tree, trees[place]? = some tree ∧ tree.isGroup .brace = true
  unfollowed : ∀ next, trees[place + 1]? = some next → next.isAnyPunct = false
  inside : ∃ keyword, NearestKeyword trees place keyword ∧ StartsStatement trees keyword

theorem behindStatement_succ_iff (stands : trees[place]? = some tree) :
    BehindStatement trees (place + 1) ↔
      tree.isPunct ";" = true ∨ tree.isGroup .brace = true := by
  constructor
  · intro behind
    cases behind with
    | behind found ends =>
        cases stands.symm.trans found
        exact ends
  · exact .behind stands

theorem isPunct_congr {text other : String} (is : tree.isPunct text = true)
    (isOther : tree.isPunct other = true) : text = other := by
  cases tree with
  | group => contradiction
  | leaf token =>
      simp only [isPunct, anyToken, Token.isPunct, Bool.and_eq_true, beq_iff_eq] at is isOther
      exact is.2.symm.trans isOther.2

theorem isLabel_iff {lifetime colon : Tree} (first : trees[place]? = some lifetime)
    (second : trees[place + 1]? = some colon) :
    IsLabel trees place ↔ (colon.isPunct ":" && lifetime.isLifetime) = true := by
  rw [Bool.and_eq_true]
  constructor
  · rintro ⟨⟨_, found, isLifetime⟩, ⟨_, foundToo, isColon⟩⟩
    cases first.symm.trans found
    cases second.symm.trans foundToo
    exact ⟨isColon, isLifetime⟩
  · rintro ⟨isColon, isLifetime⟩
    exact ⟨⟨_, first, isLifetime⟩, ⟨_, second, isColon⟩⟩

/-- Behind a label a statement starts where it would start without it. -/
theorem startsStatement_labelled_iff (label : IsLabel trees place) :
    StartsStatement trees (place + 2) ↔ BehindStatement trees place := by
  constructor
  · intro starts
    cases starts with
    | labelled behind => exact behind
    | plain behind =>
        obtain ⟨colon, second, isColon⟩ := label.marked
        rcases (behindStatement_succ_iff second).mp behind with semicolon | block
        · exact absurd (isPunct_congr isColon semicolon) (by decide)
        · cases (isPunct_of_isGroup block ":").symm.trans isColon
  · exact fun behind => .labelled behind label

theorem startsStatement_plain_iff
    (plain : ∀ label, place = label + 2 → ¬ IsLabel trees label) :
    StartsStatement trees place ↔ BehindStatement trees place := by
  constructor
  · intro starts
    cases starts with
    | plain behind => exact behind
    | labelled behind label => exact absurd label (plain _ rfl)
  · exact .plain

theorem startsStatement_front (within : place ≤ trees.length) :
    startsStatement (front trees place) = true ↔ StartsStatement trees place := by
  match place with
  | 0 => exact ⟨fun _ => .plain .first, fun _ => rfl⟩
  | 1 =>
      obtain ⟨only, stands⟩ : ∃ tree, trees[0]? = some tree :=
        ⟨_, List.getElem?_eq_getElem within⟩
      rw [startsStatement_plain_iff (by simp), behindStatement_succ_iff stands,
        front_succ stands, ← Bool.or_eq_true]
      rfl
  | place + 2 =>
      obtain ⟨colon, second⟩ : ∃ tree, trees[place + 1]? = some tree :=
        ⟨_, List.getElem?_eq_getElem within⟩
      obtain ⟨lifetime, first⟩ := exists_of_succ second
      have isLabel := isLabel_iff first second
      rw [front_succ second, front_succ first, startsStatement, skipLabel]
      by_cases label : (colon.isPunct ":" && lifetime.isLifetime) = true
      · rw [if_pos label, startsStatement_labelled_iff (isLabel.mpr label)]
        match place with
        | 0 => exact ⟨fun _ => .first, fun _ => rfl⟩
        | place + 1 =>
            obtain ⟨last, stands⟩ := exists_of_succ first
            rw [front_succ stands, behindStatement_succ_iff stands, ← Bool.or_eq_true]
      · have plain : ∀ other, place + 2 = other + 2 → ¬ IsLabel trees other := by
          rintro other same
          obtain rfl : place = other := by omega
          rwa [isLabel]
        rw [if_neg label, startsStatement_plain_iff plain, behindStatement_succ_iff second,
          ← Bool.or_eq_true]

/-- The nearest keyword is the last tree, or it is nearest to that and the last tree does not
count. -/
theorem nearestKeyword_succ_iff {keyword : Nat} (stands : trees[place]? = some tree) :
    NearestKeyword trees (place + 1) keyword ↔
      (keyword = place ∧ tree.isKeywordIn blockKeywords = true) ∨
        (isTerminator tree = false ∧ tree.isKeywordIn blockKeywords = false ∧
          NearestKeyword trees place keyword) := by
  constructor
  · intro nearest
    rcases Nat.lt_succ_iff_lt_or_eq.mp nearest.before with before | rfl
    · obtain ⟨goesOn, other⟩ := nearest.quiet place tree before (Nat.lt_succ_self _) stands
      refine .inr ⟨goesOn, other, before, nearest.opens, fun between found after inside => ?_⟩
      exact nearest.quiet between found after (Nat.lt_succ_of_lt inside)
    · obtain ⟨found, here, opens⟩ := nearest.opens
      cases stands.symm.trans here
      exact .inl ⟨rfl, opens⟩
  · rintro (⟨rfl, opens⟩ | ⟨goesOn, other, nearest⟩)
    · refine ⟨Nat.lt_succ_self _, ⟨tree, stands, opens⟩, fun between found after inside => ?_⟩
      omega
    · refine ⟨Nat.lt_succ_of_lt nearest.before, nearest.opens, ?_⟩
      intro between found after inside here
      rcases Nat.lt_succ_iff_lt_or_eq.mp inside with before | rfl
      · exact nearest.quiet between found after before here
      · cases stands.symm.trans here
        exact ⟨goesOn, other⟩

theorem inBlockStatement_front (within : place ≤ trees.length) :
    inBlockStatement (front trees place) = true ↔
      ∃ keyword, NearestKeyword trees place keyword ∧ StartsStatement trees keyword := by
  induction place with
  | zero =>
      refine iff_of_false (by simp [front, inBlockStatement]) ?_
      rintro ⟨keyword, nearest, -⟩
      exact absurd nearest.before (Nat.not_lt_zero _)
  | succ place ih =>
      obtain ⟨tree, stands⟩ : ∃ tree, trees[place]? = some tree :=
        ⟨_, List.getElem?_eq_getElem within⟩
      have before := Nat.le_of_succ_le within
      simp only [front_succ stands, inBlockStatement, nearestKeyword_succ_iff stands]
      by_cases opens : tree.isKeywordIn blockKeywords = true
      · simp [opens, not_isTerminator_of_isKeywordIn opens, startsStatement_front before]
      · by_cases terminates : isTerminator tree = true
        · simp [opens, terminates]
        · simp [opens, terminates, ih before]

theorem closesBlock_iff (stands : trees[place]? = some tree) :
    ClosesBlock trees place ↔
      closesBlockStatement (front trees place) tree trees[place + 1]? = true := by
  have within : place ≤ trees.length := by
    obtain ⟨inside, -⟩ := List.getElem?_eq_some_iff.mp stands
    exact Nat.le_of_lt inside
  have unfollowed : (!(trees[place + 1]?).any Tree.isAnyPunct) = true ↔
      ∀ next, trees[place + 1]? = some next → next.isAnyPunct = false := by
    cases trees[place + 1]? <;> simp
  rw [closesBlockStatement, Bool.and_eq_true, Bool.and_eq_true, unfollowed,
    inBlockStatement_front within]
  constructor
  · rintro ⟨⟨found, here, block⟩, unfollowed, inside⟩
    cases stands.symm.trans here
    exact ⟨⟨block, unfollowed⟩, inside⟩
  · rintro ⟨⟨block, unfollowed⟩, inside⟩
    exact ⟨⟨tree, stands, block⟩, unfollowed, inside⟩

/-! The stretch that a scan goes over. -/

/-- A stretch of siblings up to `stop` that holds nothing at which a scan stops, up to `free` not
even a block statement.  It begins where a scan stops: at the floor, with an invisible group, or
behind a boundary or a block statement. -/
structure Stretch (trees : List Tree) (floor free stop start : Nat) : Prop where
  above : floor ≤ start
  upTo : start ≤ stop
  unbounded : ∀ place tree, start ≤ place → place < stop → trees[place]? = some tree →
    isBoundary tree = false
  goesOn : ∀ place, start ≤ place → place < free → ¬ ClosesBlock trees place
  visible : ∀ place tree, start < place → place < stop → trees[place]? = some tree →
    tree.isInvisible = false
  begins : start = floor ∨
    (start < stop ∧ ∃ tree, trees[start]? = some tree ∧ tree.isInvisible = true) ∨
    ∃ place, start = place + 1 ∧
      ((∃ tree, trees[place]? = some tree ∧ isBoundary tree = true) ∨ ClosesBlock trees place)

/-- The stretch in front of a marker that is its operand. -/
structure IsOperand (trees : List Tree) (floor marker start : Nat) : Prop
    extends Stretch trees floor (marker - 1) marker start where
  nonempty : start < marker
  complete : ∀ last, trees[marker - 1]? = some last → last.isPunctIn danglingOperators = false

namespace Stretch

theorem empty (above : floor ≤ place)
    (begins : place = floor ∨ ∃ before, place = before + 1 ∧
      ((∃ tree, trees[before]? = some tree ∧ isBoundary tree = true) ∨ ClosesBlock trees before)) :
    Stretch trees floor place place place where
  above := above
  upTo := Nat.le_refl _
  unbounded _ _ since before := absurd since (Nat.not_le.mpr before)
  goesOn _ since before := absurd since (Nat.not_le.mpr before)
  visible _ _ since before := absurd (Nat.le_of_lt since) (Nat.not_le.mpr before)
  begins := begins.imp_right .inr

theorem invisible (above : floor ≤ place) (stands : trees[place]? = some tree)
    (unbounded : isBoundary tree = false) (invisible : tree.isInvisible = true)
    (goesOn : ∀ other, place ≤ other → other < free → ¬ ClosesBlock trees other) :
    Stretch trees floor free (place + 1) place where
  above := above
  upTo := Nat.le_succ _
  unbounded other found since before here := by
    obtain rfl : other = place := by omega
    cases stands.symm.trans here
    exact unbounded
  goesOn := goesOn
  visible other _ since before := by omega
  begins := .inr (.inl ⟨Nat.lt_succ_self _, tree, stands, invisible⟩)

/-- A stretch goes on over a tree at which no scan stops. -/
theorem extend (stretch : Stretch trees floor free place start)
    (stands : trees[place]? = some tree) (unbounded : isBoundary tree = false)
    (visible : tree.isInvisible = false) {further : Nat}
    (goesOn : ∀ other, start ≤ other → other < further → ¬ ClosesBlock trees other) :
    Stretch trees floor further (place + 1) start where
  above := stretch.above
  upTo := Nat.le_succ_of_le stretch.upTo
  unbounded other found since before here := by
    rcases Nat.lt_succ_iff_lt_or_eq.mp before with inside | rfl
    · exact stretch.unbounded other found since inside here
    · cases stands.symm.trans here
      exact unbounded
  goesOn := goesOn
  visible other found since before here := by
    rcases Nat.lt_succ_iff_lt_or_eq.mp before with inside | rfl
    · exact stretch.visible other found since inside here
    · cases stands.symm.trans here
      exact visible
  begins := by
    refine stretch.begins.imp_right (Or.imp_left fun first => ?_)
    exact ⟨Nat.lt_succ_of_lt first.1, first.2⟩

end Stretch

/-- The scan goes over the stretch in front of a place. -/
theorem extent_stretch (above : floor ≤ place) (stands : trees[place]? = some next) :
    Stretch trees floor place place
      (place - extent (place - floor) (front trees place) next) := by
  induction place generalizing next with
  | zero =>
      obtain rfl := Nat.le_zero.mp above
      exact .empty (Nat.le_refl _) (.inl rfl)
  | succ place ih =>
      rcases Nat.lt_or_eq_of_le above with inside | rfl
      · obtain ⟨tree, before⟩ := exists_of_succ stands
        have since : floor ≤ place := Nat.le_of_lt_succ inside
        have reach : place + 1 - floor = place - floor + 1 := by omega
        -- what makes a block statement may stand in front of the floor, which bounds the reach only
        have closes := closesBlock_iff before
        rw [stands] at closes
        rw [reach, front_succ before, extent]
        split
        · rename_i stops
          rw [Bool.or_eq_true, ← closes] at stops
          refine .empty above (.inr ⟨place, rfl, stops.imp_left fun boundary => ?_⟩)
          exact ⟨tree, before, boundary⟩
        · rename_i goesOn
          rw [Bool.or_eq_true, ← closes, not_or, Bool.not_eq_true] at goesOn
          split
          · rename_i invisible
            refine .invisible since before goesOn.1 invisible fun other since inside => ?_
            obtain rfl : other = place := by omega
            exact goesOn.2
          · rename_i visible
            have stretch := ih since before
            rw [Nat.add_sub_add_right]
            refine stretch.extend before goesOn.1 (Bool.eq_false_iff.mpr visible) ?_
            intro other since inside
            rcases Nat.lt_succ_iff_lt_or_eq.mp inside with earlier | rfl
            · exact stretch.goesOn other since earlier
            · exact goesOn.2
      · rw [Nat.sub_self, extent]
        exact .empty (Nat.le_refl _) (.inl rfl)

/-- Nothing that could be an operand is in front of a marker. -/
def Vacant (trees : List Tree) (floor marker : Nat) : Prop :=
  marker = floor ∨ ∃ last, trees[marker - 1]? = some last ∧ isBoundary last = true

/-- The operand in front of a marker is none, or the stretch that the scan goes over.  The tree right
in front of the marker is not held against being the end of a block statement. -/
theorem length_stretch {marker : Tree} (above : floor ≤ place)
    (stands : trees[place]? = some marker) :
    (Vacant trees floor place ∧ length (place - floor) (front trees place) = 0) ∨
      (¬ Vacant trees floor place ∧ 0 < length (place - floor) (front trees place) ∧
        Stretch trees floor (place - 1) place
          (place - length (place - floor) (front trees place))) := by
  rcases Nat.lt_or_eq_of_le above with inside | rfl
  · obtain ⟨last, rfl⟩ := Nat.exists_eq_succ_of_ne_zero (Nat.ne_zero_of_lt inside)
    obtain ⟨tree, before⟩ := exists_of_succ stands
    have since : floor ≤ last := Nat.le_of_lt_succ inside
    have reach : last + 1 - floor = last - floor + 1 := by omega
    have vacant : Vacant trees floor (last + 1) ↔ isBoundary tree = true := by
      constructor
      · rintro (same | ⟨found, here, boundary⟩)
        · omega
        · cases before.symm.trans here
          exact boundary
      · exact fun boundary => .inr ⟨tree, before, boundary⟩
    rw [Nat.succ_eq_add_one, vacant, reach, front_succ before, length, Nat.add_sub_cancel]
    by_cases boundary : isBoundary tree = true
    · exact .inl ⟨boundary, if_pos boundary⟩
    · refine .inr ⟨boundary, ?_⟩
      have unbounded := Bool.eq_false_iff.mpr boundary
      rw [if_neg boundary]
      split
      · rename_i invisible
        refine ⟨Nat.one_pos, .invisible since before unbounded invisible ?_⟩
        intro other since inside
        omega
      · rename_i visible
        have stretch := extent_stretch since before
        rw [Nat.add_sub_add_right]
        exact ⟨Nat.succ_pos _, stretch.extend before unbounded (Bool.eq_false_iff.mpr visible)
          stretch.goesOn⟩
  · refine .inl ⟨.inl rfl, ?_⟩
    rw [Nat.sub_self, length]

namespace IsOperand

variable {marker other : Nat}

theorem not_before (first : IsOperand trees floor marker start)
    (second : IsOperand trees floor marker other) : ¬ start < other := by
  intro before
  have inside := second.nonempty
  -- the shorter one begins at something that the longer one does not hold
  rcases second.begins with rfl | ⟨-, tree, stands, invisible⟩ | ⟨place, rfl, stops⟩
  · exact absurd first.above (Nat.not_le.mpr before)
  · cases invisible.symm.trans (first.visible other tree before inside stands)
  · rcases stops with ⟨tree, stands, boundary⟩ | closes
    · have unbounded := first.unbounded place tree (by omega) (by omega) stands
      cases boundary.symm.trans unbounded
    · exact first.goesOn place (by omega) (by omega) closes

/-- A marker has no more than one operand. -/
theorem unique (first : IsOperand trees floor marker start)
    (second : IsOperand trees floor marker other) : start = other :=
  Nat.le_antisymm (Nat.not_lt.mp (second.not_before first))
    (Nat.not_lt.mp (first.not_before second))

theorem not_vacant (isOperand : IsOperand trees floor marker start) :
    ¬ Vacant trees floor marker := by
  have inside := isOperand.nonempty
  rintro (rfl | ⟨last, stands, boundary⟩)
  · exact absurd isOperand.above (Nat.not_le.mpr inside)
  · have unbounded := isOperand.unbounded (marker - 1) last (by omega) (by omega) stands
    cases boundary.symm.trans unbounded

end IsOperand

end Operand

namespace Site

open Operand

variable {trees : List Tree} {floor place : Nat} {site : Site}

/-- The place at which the operand of a marker starts, but for the siblings in front of `floor`. -/
def operandStart (site : Site) (floor : Nat) : Except Failure Nat :=
  match Operand.take (site.before.length - floor) site.before site.marker with
  | .error failure => .error failure
  | .ok operand => .ok (site.before.length - operand.length)

theorem of_ofIndex (stands : ofIndex trees place = some site) :
    site.before = front trees place ∧ site.before.length = place ∧
      trees[place]? = some site.marker := by
  unfold ofIndex at stands
  split at stands
  · contradiction
  · rename_i marker after behind
    cases stands
    have found : trees[place]? = some marker := by
      rw [← List.head?_drop, behind]
      rfl
    obtain ⟨within, -⟩ := List.getElem?_eq_some_iff.mp found
    exact ⟨rfl, length_front (Nat.le_of_lt within), found⟩

/-- The three ways in which the search for an operand ends. -/
theorem operandStart_cases (stands : ofIndex trees place = some site) (above : floor ≤ place) :
    (Vacant trees floor place ∧
        site.operandStart floor = .error ⟨.noOperand, site.marker.span, none⟩) ∨
      (¬ Vacant trees floor place ∧ ∃ operator, trees[place - 1]? = some (.leaf operator) ∧
        isPunctIn danglingOperators (.leaf operator) = true ∧
        site.operandStart floor =
          .error ⟨.danglingOperator operator.text, (Tree.leaf operator).span, none⟩) ∨
      ∃ start, IsOperand trees floor place start ∧ site.operandStart floor = .ok start := by
  obtain ⟨before, length, found⟩ := of_ofIndex stands
  rw [operandStart, length, before, take]
  rcases length_stretch above found with ⟨vacant, none⟩ | ⟨occupied, some, stretch⟩
  · rw [none]
    exact .inl ⟨vacant, rfl⟩
  · generalize count : Operand.length (place - floor) (front trees place) = size at *
    have within : size ≤ place := by
      have most := length_le (place - floor) (front trees place)
      rwa [count, ← before, length] at most
    obtain ⟨others, rfl⟩ := Nat.exists_eq_succ_of_ne_zero (Nat.ne_of_gt some)
    obtain ⟨nearest, rfl⟩ := Nat.exists_eq_succ_of_ne_zero (Nat.ne_zero_of_lt within)
    obtain ⟨last, stood⟩ := exists_of_succ found
    have inside : nearest ≤ trees.length := by
      obtain ⟨inside, -⟩ := List.getElem?_eq_some_iff.mp stood
      exact Nat.le_of_lt inside
    have cut : (front trees (nearest + 1)).take (others + 1) =
        last :: (front trees nearest).take others := by
      rw [front_succ stood, List.take_succ_cons]
    have number : (last :: (front trees nearest).take others).length = others + 1 := by
      rw [List.length_cons, List.length_take, length_front inside,
        Nat.min_eq_left (Nat.le_of_succ_le_succ within)]
    have start : nearest + 1 - (others + 1) < nearest + 1 := by omega
    rw [Nat.succ_eq_add_one, Nat.succ_eq_add_one, cut]
    by_cases dangling : last.isPunctIn danglingOperators = true
    · refine .inr (.inl ⟨occupied, ?_⟩)
      cases last with
      | group => contradiction
      | leaf operator => exact ⟨operator, stood, dangling, by simp only [dangling, if_true]⟩
    · refine .inr (.inr ⟨_, ⟨stretch, start, ?_⟩, ?_⟩)
      · intro other found
        cases stood.symm.trans found
        exact Bool.eq_false_iff.mpr dangling
      · cases last with
        | group => simp only [number]
        | leaf operator => simp only [dangling, number, Bool.false_eq_true, if_false]

/-- The operand of a marker starts where the one stretch does that is its operand.  If there is
none, the failure is shown at the marker if nothing that could be an operand is in front of it, and
otherwise at the operator in front of it. -/
theorem operandStart_eq_ok_iff (stands : ofIndex trees place = some site) (above : floor ≤ place) :
    (∀ start, site.operandStart floor = .ok start ↔ IsOperand trees floor place start) ∧
      ((¬ ∃ start, IsOperand trees floor place start) →
        (Vacant trees floor place ∧
          site.operandStart floor = .error ⟨.noOperand, site.marker.span, none⟩) ∨
        (¬ Vacant trees floor place ∧ ∃ operator, trees[place - 1]? = some (.leaf operator) ∧
          isPunctIn danglingOperators (.leaf operator) = true ∧
          site.operandStart floor =
            .error ⟨.danglingOperator operator.text, (Tree.leaf operator).span, none⟩)) := by
  have ways := operandStart_cases stands above
  refine ⟨fun start => ?_, fun none => ?_⟩
  · constructor
    · intro found
      rcases ways with ⟨-, failed⟩ | ⟨-, operator, -, -, failed⟩ | ⟨other, isOperand, same⟩
      · cases found.symm.trans failed
      · cases found.symm.trans failed
      · cases found.symm.trans same
        exact isOperand
    · intro isOperand
      rcases ways with ⟨vacant, -⟩ | ⟨-, operator, last, dangling, -⟩ | ⟨other, same, found⟩
      · exact absurd vacant isOperand.not_vacant
      · cases dangling.symm.trans (isOperand.complete _ last)
      · rw [found, same.unique isOperand]
  · rcases ways with failed | failed | ⟨start, isOperand, -⟩
    · exact .inl failed
    · exact .inr failed
    · exact absurd ⟨start, isOperand⟩ none

/-- Behind a loop the operand starts right behind the block, at the floor or not. -/
theorem operandStart_eq_ok_iff_loop :
    ∃ fragment site, Fragment.read "for x in v \x7b\x7d y::(box)" "main.rs" = .ok fragment ∧
      ofIndex fragment.children 6 = some site ∧ ClosesBlock fragment.children 4 ∧
      IsOperand fragment.children 0 6 5 ∧ IsOperand fragment.children 5 6 5 := by
  have run : (Fragment.read "for x in v \x7b\x7d y::(box)" "main.rs").toOption.any fun fragment =>
      (ofIndex fragment.children 6).any fun site =>
        (site.operandStart 0).toOption.any (· == 5) &&
          (site.operandStart 5).toOption.any (· == 5) &&
          fragment.children[4]?.any fun block =>
            closesBlockStatement (front fragment.children 4) block fragment.children[5]? := by
    decide +kernel
  obtain ⟨fragment, lexed, run⟩ := exists_ok_of_any run
  rw [Option.any_eq_true] at run
  obtain ⟨site, stands, run⟩ := run
  rw [Bool.and_eq_true, Bool.and_eq_true] at run
  obtain ⟨⟨first, second⟩, closes⟩ := run
  rw [Option.any_eq_true] at closes
  obtain ⟨block, here, closes⟩ := closes
  obtain ⟨_, first, same⟩ := exists_ok_of_any first
  obtain rfl := beq_iff_eq.mp same
  obtain ⟨_, second, same⟩ := exists_ok_of_any second
  obtain rfl := beq_iff_eq.mp same
  exact ⟨fragment, site, lexed, stands, (closesBlock_iff here).mpr closes,
    ((operandStart_eq_ok_iff stands (by decide)).1 5).mp first,
    ((operandStart_eq_ok_iff stands (by decide)).1 5).mp second⟩

end Site

end Headfirst
