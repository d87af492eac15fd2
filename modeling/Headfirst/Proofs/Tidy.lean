import Headfirst.Proofs.Floors

namespace Headfirst

/-! What a run builds in invisible groups.

A replacement begins with a token and ends in its operand or in a block; and what is put into
an invisible group, replacement or operand, neither begins with a marker nor ends in one, with
or without its head.  So dissolving such a group cuts no occurrence in two. -/

namespace Tree

mutual

/-- Whether what a tree begins with is a token where invisible groups are dissolved. -/
def opensPlain : Tree → Bool
  | leaf _ => true
  | group bracket children => bracket.delimiter == .invisible && openPlain children

def openPlain : List Tree → Bool
  | [] => false
  | tree :: _ => tree.opensPlain

end

/-- Whether two trees may stand side by side: an invisible group begins with a token, or a token
other than `::` stands in front of it. -/
def meets (left right : Tree) : Bool :=
  !right.isInvisible || right.opensPlain || left.isPlainToken

def beginsClosed : List Tree → Bool
  | [] => true
  | tree :: after => !Marker.test tree after.head?

/-- Whether a sequence, here from its end, ends neither in a `::` nor in a `::` with a head. -/
def endsClosed : List Tree → Bool
  | [] => true
  | last :: before =>
      !last.isPunct "::" && !(last.isGroup .paren && before.head?.any (·.isPunct "::"))

def isClosed (trees : List Tree) : Bool :=
  beginsClosed trees && endsClosed trees.reverse

mutual

def isTidy : Tree → Bool
  | leaf _ => true
  | group bracket children =>
      (bracket.delimiter != .invisible || isClosed children) && areTidy children

def areTidy : List Tree → Bool
  | [] => true
  | tree :: trees => tree.isTidy && trees.head?.all tree.meets && areTidy trees

end

variable {tree : Tree} {trees left right : List Tree}

mutual

theorem isTidy_of_isVisible : ∀ tree : Tree, tree.isVisible = true → tree.isTidy = true
  | leaf token, _ => rfl
  | group bracket children, visible => by
      simp only [isVisible, Bool.and_eq_true] at visible
      rw [isTidy, visible.1, areTidy_of_areVisible children visible.2]
      rfl

theorem areTidy_of_areVisible : ∀ trees : List Tree, areVisible trees = true →
    areTidy trees = true
  | [], _ => rfl
  | tree :: trees, visible => by
      simp only [areVisible, Bool.and_eq_true] at visible
      have meets : trees.head?.all tree.meets = true := by
        cases trees with
        | nil => rfl
        | cons next others =>
            simp only [areVisible, Bool.and_eq_true] at visible
            have shown : next.isInvisible = false := by
              cases next with
              | leaf token => rfl
              | group bracket children =>
                  have other := visible.2.1
                  simp only [isVisible, Bool.and_eq_true, bne_iff_ne, ne_eq] at other
                  simp [isInvisible, isGroup, other.1]
            simp [Tree.meets, shown]
      rw [areTidy, isTidy_of_isVisible tree visible.1, areTidy_of_areVisible trees visible.2, meets]
      rfl

end

theorem areTidy_append : areTidy (left ++ right) = true ↔
    areTidy left = true ∧ areTidy right = true ∧
      ∀ last ∈ left.getLast?, ∀ first ∈ right.head?, last.meets first = true := by
  induction left with
  | nil => simp [areTidy]
  | cons tree trees ih =>
      rw [List.cons_append, areTidy, areTidy, List.head?_append]
      simp only [Bool.and_eq_true, ih]
      cases trees with
      | nil =>
          simp only [List.head?_nil, Option.none_or, Option.all_none, List.getLast?_nil,
            List.getLast?_singleton, areTidy]
          rw [Option.all_eq_true]
          simp only [Option.mem_def, reduceCtorEq, false_implies, implies_true, and_true,
            true_and, Option.some.injEq, forall_eq']
          constructor
          · rintro ⟨⟨own, meets⟩, rest⟩
            exact ⟨own, rest, meets⟩
          · rintro ⟨own, rest, meets⟩
            exact ⟨⟨own, meets⟩, rest⟩
      | cons second others =>
          rw [List.getLast?_cons_cons]
          simp only [List.head?_cons, Option.some_or, Option.all_some]
          constructor
          · rintro ⟨⟨own, meets⟩, inside, rest, joint⟩
            exact ⟨⟨⟨own, meets⟩, inside⟩, rest, joint⟩
          · rintro ⟨⟨⟨own, meets⟩, inside⟩, rest, joint⟩
            exact ⟨⟨own, meets⟩, inside, rest, joint⟩

theorem areTidy_bare (trees : List Tree) : areTidy (trees.map bare) = areTidy trees := by
  induction trees with
  | nil => rfl
  | cons tree trees ih =>
      have own : tree.bare.isTidy = tree.isTidy := by cases tree <;> rfl
      have meets (next : Tree) : tree.bare.meets next.bare = tree.meets next := by
        cases tree <;> cases next <;> rfl
      rw [List.map_cons, areTidy, areTidy, ih, own, List.head?_map]
      cases trees.head? <;> simp [meets]

theorem areTidy_eq_of_bare (same : left.map bare = right.map bare) :
    areTidy left = areTidy right := by
  rw [← areTidy_bare left, same, areTidy_bare]

/-- What is closed is seen from the tests on single trees. -/
theorem isClosed_map {view : Tree → Tree}
    (marker : ∀ tree next, Marker.test (view tree) (next.map view) = Marker.test tree next)
    (path : ∀ tree, (view tree).isPunct "::" = tree.isPunct "::")
    (head : ∀ tree, (view tree).isGroup .paren = tree.isGroup .paren) (trees : List Tree) :
    isClosed (trees.map view) = isClosed trees := by
  have begins : beginsClosed (trees.map view) = beginsClosed trees := by
    cases trees with
    | nil => rfl
    | cons tree after => rw [List.map_cons, beginsClosed, List.head?_map, marker, beginsClosed]
  have ends (before : List Tree) : endsClosed (before.map view) = endsClosed before := by
    match before with
    | [] => rfl
    | [last] => simp [endsClosed, path]
    | last :: second :: before => simp [endsClosed, path, head]
  rw [isClosed, begins, ← List.map_reverse, ends, isClosed]

theorem isClosed_eq_of_bare (same : left.map bare = right.map bare) :
    isClosed left = isClosed right := by
  have view (trees : List Tree) : isClosed (trees.map bare) = isClosed trees :=
    isClosed_map (fun _ _ => Marker.test_bare) (fun _ => isPunct_bare _) (fun _ => isGroup_bare _)
      trees
  rw [← view left, same, view]

theorem isClosed_eq_of_shell (same : left.map shell = right.map shell) :
    isClosed left = isClosed right := by
  have view (trees : List Tree) : isClosed (trees.map shell) = isClosed trees :=
    isClosed_map test_shell (fun tree => by cases tree <;> rfl) (fun tree => by cases tree <;> rfl)
      trees
  rw [← view left, same, view]

end Tree

open Headfirst.Tree

/-- What a change inside a group has to keep for the tree around it to stay tidy. -/
structure Tidies (old new : List Tree) : Prop where
  tidy : areTidy old = true → areTidy new = true
  opens : openPlain old = true → openPlain new = true
  closed : isClosed old = true → isClosed new = true

namespace Tidies

variable {old new : List Tree}

theorem group (change : Tidies old new) (before : List Tree) (bracket : Bracket)
    (after : List Tree) :
    Tidies (before ++ .group bracket old :: after) (before ++ .group bracket new :: after) where
  tidy tidy := by
    rw [areTidy_append] at tidy ⊢
    obtain ⟨left, right, meets⟩ := tidy
    refine ⟨left, ?_, ?_⟩
    · simp only [areTidy, isTidy, Bool.and_eq_true, Bool.or_eq_true] at right ⊢
      obtain ⟨⟨⟨closed, inside⟩, joint⟩, rest⟩ := right
      exact ⟨⟨⟨closed.imp_right change.closed, change.tidy inside⟩, joint⟩, rest⟩
    · intro last found first member
      cases member
      have joint := meets last found (.group bracket old) rfl
      simp only [Tree.meets, isInvisible, isGroup, opensPlain, Bool.or_eq_true,
        Bool.and_eq_true] at joint ⊢
      exact joint.imp_left (Or.imp_right (And.imp_right change.opens))
  opens opens := by
    cases before with
    | nil =>
        simp only [List.nil_append, openPlain, opensPlain, Bool.and_eq_true] at opens ⊢
        exact ⟨opens.1, change.opens opens.2⟩
    | cons tree before => exact opens
  closed closed := by
    have same : isClosed (before ++ .group bracket new :: after) =
        isClosed (before ++ .group bracket old :: after) :=
      isClosed_eq_of_shell (by simp [shell])
    rwa [same]

theorem fill (change : Tidies old new) (frames : List Frame) :
    Tidies (Frame.fill frames old) (Frame.fill frames new) := by
  induction frames generalizing old new with
  | nil => exact change
  | cons frame frames ih => exact ih (change.group frame.before frame.bracket frame.after)

end Tidies

theorem Tree.isClosed_of_passable {trees : List Tree} {next : Option Tree}
    (passable : Passable next trees) (ends : EndsHarmlessly trees) : isClosed trees = true := by
  have begins : beginsClosed trees = true := by
    match trees with
    | [] => rfl
    | [tree] => simp [beginsClosed, Marker.test_eq_false (ends tree rfl)]
    | tree :: second :: others =>
        have noMarker : Marker.test tree (some second) = false := passable.1
        simp [beginsClosed, noMarker]
  have closes : endsClosed trees.reverse = true := by
    cases reversed : trees.reverse with
    | nil => rfl
    | cons last before =>
        have whole : trees = before.reverse ++ [last] := by
          rw [← List.reverse_cons, ← reversed, List.reverse_reverse]
        have harmless : last.isPunct "::" = false := ends last (by rw [whole, List.getLast?_concat])
        rw [endsClosed, harmless]
        cases before with
        | nil => simp
        | cons second before =>
            cases isHead : last.isGroup .paren with
            | false => rfl
            | true =>
                -- a `::` in front of a head is a marker
                rw [whole, List.reverse_cons, List.append_assoc, passable_append] at passable
                have noMarker : Marker.test second (some last) = false := passable.2.1
                simpa [Marker.test, continuesPath_of_isGroup isHead] using noMarker
  rw [isClosed, begins, closes]
  rfl

namespace Site

variable {site : Site} {reach : Nat} {occurrence : Occurrence}

/-- The operand of an occurrence can stand in an invisible group. -/
theorem isTidy_wrapped (settled : Settled reach site.before (some site.marker))
    (resolved : site.resolve reach = .ok occurrence) (parenthesize : Bool)
    (tidy : areTidy occurrence.operand = true) :
    (Replacement.wrapped parenthesize occurrence.operand).isTidy = true := by
  have same := bare_bareOperand occurrence.operand
  have inside : areTidy (Replacement.bareOperand occurrence.operand) = true := by
    rwa [areTidy_eq_of_bare same]
  rcases Replacement.wrapped_cases parenthesize occurrence.operand with ⟨bracket, grouped⟩ | single
  · have closed : isClosed (Replacement.bareOperand occurrence.operand) = true := by
      rw [isClosed_eq_of_bare same]
      exact isClosed_of_passable (passable_operand settled resolved) (ends_operand resolved)
    rw [grouped, isTidy, closed, inside, Bool.or_true, Bool.and_true]
  · rw [single] at inside
    simpa [areTidy] using inside

/-- What stands in a replacement: a head, the operand and a body. -/
theorem closed_parts (resolved : site.resolve reach = .ok occurrence) (parenthesize : Bool) :
    isClosed (occurrence.head.trees ++
      Replacement.wrapped parenthesize occurrence.operand :: occurrence.body) = true := by
  obtain ⟨group, parsed, -⟩ := resolve_parts resolved
  obtain ⟨first, others, begins, plain⟩ := Head.begins_ofGroup parsed
  have noMarker (next : Option Tree) : Marker.test first next = false :=
    Marker.test_eq_false (isPunct_of_isPlainToken first plain)
  have opens : beginsClosed (occurrence.head.trees ++
      Replacement.wrapped parenthesize occurrence.operand :: occurrence.body) = true := by
    rw [begins, List.cons_append, beginsClosed, noMarker]
    rfl
  rw [isClosed, opens, List.reverse_append, List.reverse_cons, List.append_assoc]
  cases reversed : occurrence.body.reverse with
  | nil =>
      have harmless := Replacement.wrapped_not_separator parenthesize (ends_operand resolved)
      have second : occurrence.head.trees.reverse.head?.any (·.isPunct "::") = false := by
        rw [List.head?_reverse]
        cases found : occurrence.head.trees.getLast? with
        | none => rfl
        | some last =>
            exact isPunct_of_isPlainToken last (Head.endsIn_ofGroup parsed last found)
      simp only [List.nil_append, List.singleton_append, endsClosed, harmless, second]
      simp
  | cons last before =>
      have found : occurrence.body.getLast? = some last := by
        rw [← List.head?_reverse, reversed]
        rfl
      have block := endsIn_body resolved last found
      rw [List.cons_append, endsClosed, isPunct_of_isGroup block,
        isGroup_eq_false block (by decide)]
      rfl

theorem isTidy_replacement (settled : Settled reach site.before (some site.marker))
    (resolved : site.resolve reach = .ok occurrence) (parenthesize : Bool)
    (tidyHead : areTidy occurrence.head.trees = true)
    (tidyOperand : areTidy occurrence.operand = true)
    (tidyBody : areTidy occurrence.body = true) :
    (occurrence.replacement parenthesize).isTidy = true := by
  obtain ⟨group, parsed, -⟩ := resolve_parts resolved
  obtain ⟨operand, -, -, -, group', after, captured⟩ := resolve_taken resolved
  have block : occurrence.body.head?.all
      (Replacement.wrapped parenthesize occurrence.operand).meets = true := by
    rw [Option.all_eq_true]
    intro first found
    have shown : first.isInvisible = false :=
      isGroup_eq_false (Body.begins_take captured first found) (by decide)
    simp [Tree.meets, shown]
  have parts : areTidy (occurrence.head.trees ++
      Replacement.wrapped parenthesize occurrence.operand :: occurrence.body) = true := by
    rw [areTidy_append, areTidy, isTidy_wrapped settled resolved parenthesize tidyOperand, block,
      tidyBody]
    refine ⟨tidyHead, rfl, ?_⟩
    intro last found first member
    have plain := Head.endsIn_ofGroup parsed last found
    simp [Tree.meets, plain]
  have same := bare_spaced (occurrence.head.trees ++
    Replacement.wrapped parenthesize occurrence.operand :: occurrence.body)
  rw [Occurrence.replacement, Replacement.make, isTidy, areTidy_eq_of_bare same,
    isClosed_eq_of_bare same, parts, closed_parts resolved]
  rfl

theorem opensPlain_replacement (resolved : site.resolve reach = .ok occurrence)
    (parenthesize : Bool) : (occurrence.replacement parenthesize).opensPlain = true := by
  obtain ⟨group, parsed, -⟩ := resolve_parts resolved
  obtain ⟨first, others, begins, plain⟩ := Head.begins_ofGroup parsed
  rw [Occurrence.replacement, Replacement.make, begins]
  cases first with
  | leaf token => rfl
  | group bracket children => contradiction

/-- A construct ends in its body, or in the group of its head. -/
theorem endsIn_construct (resolved : site.resolve reach = .ok occurrence) (bracket : Bracket) :
    ∃ last ∈ (Tree.group bracket occurrence.head.trees :: occurrence.body).getLast?,
      last.isPlainToken = false := by
  cases found : occurrence.body.getLast? with
  | none =>
      rw [List.getLast?_eq_none_iff.mp found]
      exact ⟨_, rfl, rfl⟩
  | some last =>
      refine ⟨last, by simp [List.getLast?_cons, found], ?_⟩
      exact not_isPlainToken_of_isGroup (endsIn_body resolved last found)

theorem beginsClosed_spliced (settled : Settled reach site.before (some site.marker))
    (resolved : site.resolve reach = .ok occurrence) (parenthesize : Bool)
    (begins : beginsClosed site.trees = true) :
    beginsClosed (spliced occurrence parenthesize) = true := by
  obtain ⟨group, -, nonempty, before, -⟩ := resolve_parts resolved
  rw [trees, before, List.append_assoc] at begins
  rw [spliced]
  cases first : occurrence.before.reverse with
  | nil => rfl
  | cons tree others =>
      rw [first] at begins
      cases others with
      | nil =>
          -- the only tree whose follower changes
          have nearest : occurrence.before.head? = some tree := by
            rw [List.reverse_eq_iff.mp first]
            rfl
          have same := test_before_replacement settled resolved parenthesize nearest
          cases operand : occurrence.operand with
          | nil => exact absurd operand nonempty
          | cons nearest others =>
              rw [operand] at same begins
              simpa [beginsClosed, same] using begins
      | cons second others => exact begins

theorem endsClosed_spliced (resolved : site.resolve reach = .ok occurrence) (parenthesize : Bool)
    (ends : endsClosed site.trees.reverse = true) :
    endsClosed (spliced occurrence parenthesize).reverse = true := by
  obtain ⟨group, -, -, -, after⟩ := resolve_parts resolved
  rw [trees, after, List.reverse_append, List.reverse_cons, List.reverse_cons,
    List.reverse_append, List.append_assoc, List.append_assoc, List.append_assoc] at ends
  rw [spliced, List.reverse_append, List.reverse_cons, List.reverse_reverse, List.append_assoc]
  cases reversed : occurrence.after.reverse with
  | nil => rfl
  | cons last others =>
      rw [reversed] at ends
      cases others with
      | nil =>
          simp only [List.cons_append, endsClosed, Bool.and_eq_true] at ends ⊢
          exact ⟨ends.1, by simp [Occurrence.replacement, Replacement.make, Tree.isPunct,
            Tree.anyToken]⟩
      | cons second others => exact ends

theorem closed_spliced (settled : Settled reach site.before (some site.marker))
    (resolved : site.resolve reach = .ok occurrence) (parenthesize : Bool)
    (closed : isClosed site.trees = true) : isClosed (spliced occurrence parenthesize) = true := by
  rw [isClosed, Bool.and_eq_true] at closed ⊢
  exact ⟨beginsClosed_spliced settled resolved parenthesize closed.1,
    endsClosed_spliced resolved parenthesize closed.2⟩

/-- A splice keeps its sequence tidy. -/
theorem tidies_spliced (settled : Settled reach site.before (some site.marker))
    (resolved : site.resolve reach = .ok occurrence) (parenthesize : Bool) :
    Tidies site.trees (spliced occurrence parenthesize) := by
  obtain ⟨group, parsed, nonempty, before, after⟩ := resolve_parts resolved
  obtain ⟨bracket, rfl⟩ := Head.eq_group parsed
  have cut : site.trees = occurrence.before.reverse ++ (occurrence.operand ++ ([site.marker] ++
      ((.group bracket occurrence.head.trees :: occurrence.body) ++ occurrence.after))) := by
    simp [trees, before, after]
  have opens := opensPlain_replacement resolved parenthesize
  refine ⟨?_, ?_, ?_⟩
  · intro tidy
    rw [cut, areTidy_append, areTidy_append, areTidy_append, areTidy_append] at tidy
    obtain ⟨left, ⟨operand, ⟨-, ⟨construct, rest, joint⟩, -⟩, -⟩, -⟩ := tidy
    simp only [areTidy, isTidy, Bool.and_eq_true] at construct
    have replaced := isTidy_replacement settled resolved parenthesize construct.1.1.2 operand
      construct.2
    rw [spliced, areTidy_append, areTidy, replaced, rest]
    refine ⟨left, ?_, ?_⟩
    · have behind : occurrence.after.head?.all (occurrence.replacement parenthesize).meets =
          true := by
        rw [Option.all_eq_true]
        intro first found
        -- what stood behind the construct stood behind a group
        obtain ⟨last, ends, isGroup⟩ := endsIn_construct resolved bracket
        have met := joint last ends first found
        rw [Tree.meets, isGroup, Bool.or_false] at met
        rw [Tree.meets, met, Bool.true_or]
      simp [behind]
    · intro last found first member
      cases member
      simp [Tree.meets, opens]
  · intro opened
    cases first : occurrence.before.reverse with
    | nil =>
        rw [spliced, first]
        exact opens
    | cons tree others =>
        rw [cut, first] at opened
        rw [spliced, first]
        exact opened
  · exact closed_spliced settled resolved parenthesize

end Site

theorem Splice.Due.areTidy_target {splice : Splice} (due : splice.Due) (parenthesize : Bool)
    (tidy : areTidy splice.source = true) : areTidy (splice.target parenthesize) = true := by
  obtain ⟨-, reach, settled, resolved⟩ := due
  exact ((Site.tidies_spliced settled resolved parenthesize).fill splice.frames).tidy tidy

theorem Trace.areTidy_final {parenthesize : Bool} {start final : List Tree}
    {splices : List Splice} (trace : Trace parenthesize start splices final)
    (tidy : areTidy start = true) : areTidy final = true := by
  induction trace with
  | done => exact tidy
  | splice due rest ih => exact ih (due.areTidy_target parenthesize tidy)

end Headfirst
