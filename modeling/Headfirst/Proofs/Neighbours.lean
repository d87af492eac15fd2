import Headfirst.Proofs.Faces
import Headfirst.Proofs.Trace

namespace Headfirst

/-! Neighbours that no splice parts.

A splice takes its marker and the brackets of the head away and puts the operand in a group
with the head and the body.  So the only neighbours it can part are those with the marker or a
construct between or at one side of them, and those of which the second begins the operand. -/

namespace Tree

section

variable (meets : Tree → Tree → Prop)

mutual

/-- Whether two neighbours below a tree meet, at any depth. -/
def Joins : Tree → Prop
  | leaf _ => False
  | group _ children => JoinsAll children

def JoinsAll : List Tree → Prop
  | [] => False
  | tree :: trees => (∃ next ∈ trees.head?, meets tree next) ∨ tree.Joins ∨ JoinsAll trees

end

end

variable {meets : Tree → Tree → Prop} {tree : Tree} {trees left right : List Tree}

@[simp] theorem joinsAll_nil : JoinsAll meets [] ↔ False := .rfl

theorem joinsAll_cons : JoinsAll meets (tree :: trees) ↔
    (∃ next ∈ trees.head?, meets tree next) ∨ tree.Joins meets ∨ JoinsAll meets trees := .rfl

theorem joinsAll_singleton : JoinsAll meets [tree] ↔ tree.Joins meets := by
  simp [joinsAll_cons]

theorem joinsAll_append : JoinsAll meets (left ++ right) ↔
    JoinsAll meets left ∨ (∃ last ∈ left.getLast?, ∃ first ∈ right.head?, meets last first) ∨
      JoinsAll meets right := by
  induction left with
  | nil => simp
  | cons tree trees ih =>
      rw [List.cons_append, joinsAll_cons, joinsAll_cons, ih]
      cases trees with
      | nil => simp [or_left_comm]
      | cons second others =>
          rw [List.getLast?_cons_cons]
          simp only [List.cons_append, List.head?_cons, or_assoc]

theorem joinsAll_bare (bare : ∀ first second, meets first.bare second.bare ↔ meets first second)
    (trees : List Tree) : JoinsAll meets (trees.map Tree.bare) ↔ JoinsAll meets trees := by
  induction trees with
  | nil => exact Iff.rfl
  | cons tree trees ih =>
      have inside : tree.bare.Joins meets ↔ tree.Joins meets := by cases tree <;> exact Iff.rfl
      have here : (∃ next ∈ (trees.map Tree.bare).head?, meets tree.bare next) ↔
          ∃ next ∈ trees.head?, meets tree next := by
        cases trees <;> simp [bare]
      rw [List.map_cons, joinsAll_cons, joinsAll_cons, ih, inside, here]

theorem joinsAll_of_bare (bare : ∀ first second, meets first.bare second.bare ↔ meets first second)
    (same : left.map Tree.bare = right.map Tree.bare) (joins : JoinsAll meets left) :
    JoinsAll meets right := by
  rw [← joinsAll_bare bare, same, joinsAll_bare bare] at joins
  exact joins

end Tree

open Headfirst.Tree

theorem Frame.joinsAll_fill {meets : Tree → Tree → Prop} {trees : List Tree} (frames : List Frame)
    (joins : JoinsAll meets trees) : JoinsAll meets (fill frames trees) := by
  induction frames generalizing trees with
  | nil => exact joins
  | cons frame frames ih =>
      exact ih (joinsAll_append.mpr (.inr (.inr (joinsAll_cons.mpr (.inr (.inl joins))))))

theorem Frame.fill_append (inner outer : List Frame) (trees : List Tree) :
    fill (inner ++ outer) trees = fill outer (fill inner trees) := by
  induction inner generalizing trees with
  | nil => rfl
  | cons frame inner ih => exact ih _

/-- Neighbours that meet, and what a splice cannot change about them: of each the face counts,
of the first one also the faces of what is in it. -/
structure Lasting (meets : Tree → Tree → Prop) : Prop where
  bare : ∀ first second, meets first.bare second.bare ↔ meets first second
  first : ∀ {bracket old new second}, old.map face = new.map face →
    meets (.group bracket old) second → meets (.group bracket new) second
  second : ∀ {first bracket old new},
    meets first (.group bracket old) → meets first (.group bracket new)
  /-- What the first one holds is not the sequence of a marker. -/
  passable : ∀ {bracket trees second}, meets (.group bracket trees) second → Passable none trees
  noMarker : ∀ {first second}, meets first second → second.isPunct "::" = false
  noHead : ∀ {first second}, meets first second → first.isPunct "::" = true →
    second.isGroup .paren = false
  noConstruct : ∀ {first second}, meets first second →
    first.isGroup .paren = false ∧ first.isGroup .brace = false

namespace Site

variable {meets : Tree → Tree → Prop} {site : Site} {reach : Nat} {occurrence : Occurrence}

/-- The operand does not begin with the second of two neighbours that meet. -/
def Spares (meets : Tree → Tree → Prop) (occurrence : Occurrence) : Prop :=
  ∀ last ∈ occurrence.before.head?, ∀ first ∈ occurrence.operand.head?, ¬meets last first

theorem joins_wrapped (lasting : Lasting meets) (parenthesize : Bool) {operand : List Tree}
    (joins : JoinsAll meets operand) :
    (Replacement.wrapped parenthesize operand).Joins meets := by
  have inside := joinsAll_of_bare lasting.bare (bare_bareOperand operand).symm joins
  rcases Replacement.wrapped_cases parenthesize operand with ⟨bracket, grouped⟩ | single
  · rw [grouped]
    exact inside
  · rw [single] at inside
    exact joinsAll_singleton.mp inside

theorem joins_replacement (lasting : Lasting meets) (parenthesize : Bool)
    (joins : JoinsAll meets occurrence.head.trees ∨ JoinsAll meets occurrence.operand ∨
      JoinsAll meets occurrence.body) : (occurrence.replacement parenthesize).Joins meets := by
  refine joinsAll_of_bare lasting.bare (bare_spaced _).symm ?_
  rw [joinsAll_append, joinsAll_cons]
  rcases joins with head | operand | body
  · exact .inl head
  · exact .inr (.inr (.inr (.inl (joins_wrapped lasting parenthesize operand))))
  · exact .inr (.inr (.inr (.inr body)))

/-- Neighbours that meet still do after a splice, if its operand does not begin between them. -/
theorem joinsAll_spliced (lasting : Lasting meets)
    (isMarker : Marker.test site.marker site.after.head? = true)
    (resolved : site.resolve reach = .ok occurrence) (spares : Spares meets occurrence)
    (parenthesize : Bool) (joins : JoinsAll meets site.trees) :
    JoinsAll meets (spliced occurrence parenthesize) := by
  obtain ⟨group, parsed, nonempty, before, after⟩ := resolve_parts resolved
  have isParen := Head.ofGroup_isGroup parsed
  obtain ⟨bracket, rfl⟩ := Head.eq_group parsed
  obtain ⟨token, isLeaf, isPath⟩ := Marker.eq_leaf_of_test isMarker
  have separator : site.marker.isPunct "::" = true := by rw [isLeaf]; exact isPath
  have cut : site.trees = occurrence.before.reverse ++ (occurrence.operand ++ ([site.marker] ++
      ([.group bracket occurrence.head.trees] ++ (occurrence.body ++ occurrence.after)))) := by
    simp [trees, before, after]
  rw [spliced, joinsAll_append, joinsAll_cons]
  rw [cut, joinsAll_append, joinsAll_append, joinsAll_append, joinsAll_append,
    joinsAll_append] at joins
  rcases joins with inFront | ⟨last, ends, first, begins, met⟩ | operand |
    ⟨last, -, first, begins, met⟩ | marker | ⟨last, ends, first, begins, met⟩ | head |
    ⟨last, ends, first, -, met⟩ | body | ⟨last, ends, first, -, met⟩ | behind
  · exact .inl inFront
  · -- the operand would begin between them
    refine absurd met (spares last (by simpa using ends) first ?_)
    cases operand : occurrence.operand with
    | nil => exact absurd operand nonempty
    | cons nearest others =>
        rw [operand] at begins
        exact begins
  · exact .inr (.inr (.inr (.inl (joins_replacement lasting parenthesize (.inr (.inl operand))))))
  · cases begins
    rw [lasting.noMarker met] at separator
    contradiction
  · rw [joinsAll_singleton, isLeaf] at marker
    exact marker.elim
  · cases ends
    cases begins
    have noParen := lasting.noHead met separator
    rw [isParen] at noParen
    contradiction
  · have inside := joinsAll_singleton.mp head
    exact .inr (.inr (.inr (.inl (joins_replacement lasting parenthesize (.inl inside)))))
  · cases ends
    have noParen := (lasting.noConstruct met).1
    rw [List.getLast_singleton, isParen] at noParen
    contradiction
  · exact .inr (.inr (.inr (.inl (joins_replacement lasting parenthesize (.inr (.inr body))))))
  · have block := endsIn_body resolved last ends
    have noBlock := (lasting.noConstruct met).2
    rw [show last.isGroup .brace = true from block] at noBlock
    contradiction
  · exact .inr (.inr (.inr (.inr behind)))

end Site

/-- A change inside a group that leaves the neighbours in it and the group itself as they are
to their neighbours. -/
structure Keeps (meets : Tree → Tree → Prop) (old new : List Tree) : Prop where
  joins : JoinsAll meets old → JoinsAll meets new
  first : ∀ {bracket second}, meets (.group bracket old) second → meets (.group bracket new) second

namespace Keeps

variable {meets : Tree → Tree → Prop} {old new : List Tree}

theorem group (keeps : Keeps meets old new) (lasting : Lasting meets) (before : List Tree)
    (bracket : Bracket) (after : List Tree) :
    Keeps meets (before ++ .group bracket old :: after) (before ++ .group bracket new :: after) where
  joins joins := by
    rw [joinsAll_append, joinsAll_cons] at joins ⊢
    rcases joins with inFront | ⟨last, ends, first, begins, met⟩ | ⟨next, follows, met⟩ | inside |
      behind
    · exact .inl inFront
    · cases begins
      exact .inr (.inl ⟨last, ends, _, rfl, lasting.second met⟩)
    · exact .inr (.inr (.inl ⟨next, follows, keeps.first met⟩))
    · exact .inr (.inr (.inr (.inl (keeps.joins inside))))
    · exact .inr (.inr (.inr (.inr behind)))
  first := lasting.first (by simp)

theorem fill (keeps : Keeps meets old new) (lasting : Lasting meets) (frames : List Frame) :
    Keeps meets (Frame.fill frames old) (Frame.fill frames new) := by
  induction frames generalizing old new with
  | nil => exact keeps
  | cons frame frames ih =>
      exact ih (keeps.group lasting frame.before frame.bracket frame.after)

end Keeps

/-- The sequence of a marker is not what the first of two lasting neighbours holds. -/
theorem Site.keeps_spliced {meets : Tree → Tree → Prop} (lasting : Lasting meets) {site : Site}
    {reach : Nat} {occurrence : Occurrence}
    (isMarker : Marker.test site.marker site.after.head? = true)
    (resolved : site.resolve reach = .ok occurrence) (spares : Spares meets occurrence)
    (parenthesize : Bool) : Keeps meets site.trees (spliced occurrence parenthesize) where
  joins := joinsAll_spliced lasting isMarker resolved spares parenthesize
  first met := by
    have noMarker := (passable_append.mp (lasting.passable met)).2.1
    rw [Option.or_none, isMarker] at noMarker
    contradiction

theorem Splice.Due.joinsAll_target {meets : Tree → Tree → Prop} (lasting : Lasting meets)
    {splice : Splice} (due : splice.Due) (spares : Site.Spares meets splice.occurrence)
    (parenthesize : Bool) (joins : JoinsAll meets splice.source) :
    JoinsAll meets (splice.target parenthesize) := by
  obtain ⟨isMarker, reach, settled, resolved⟩ := due
  have keeps := Site.keeps_spliced lasting isMarker resolved spares parenthesize
  exact (keeps.fill lasting splice.frames).joins joins

namespace Trace

variable {parenthesize : Bool} {start final : List Tree} {splices : List Splice}

/-- Neighbours that meet still do at the end of a trace none of whose operands begins between
such neighbours. -/
theorem joinsAll_final {meets : Tree → Tree → Prop} (lasting : Lasting meets)
    (trace : Trace parenthesize start splices final)
    (spares : ∀ splice ∈ splices, Site.Spares meets splice.occurrence)
    (joins : JoinsAll meets start) : JoinsAll meets final := by
  induction trace with
  | done => exact joins
  | splice due rest ih =>
      rw [List.forall_mem_cons] at spares
      exact ih spares.2 (due.joinsAll_target lasting spares.1 parenthesize joins)

theorem split {splice : Splice} (trace : Trace parenthesize start splices final)
    (member : splice ∈ splices) :
    ∃ former later, splices = former ++ splice :: later ∧
      Trace parenthesize start former splice.source ∧ splice.Due ∧
      Trace parenthesize (splice.target parenthesize) later final := by
  induction trace with
  | done => contradiction
  | splice due rest ih =>
      rcases List.mem_cons.mp member with rfl | member
      · exact ⟨[], _, rfl, .done _, due, rest⟩
      · obtain ⟨former, later, same, first, due', second⟩ := ih member
        exact ⟨_ :: former, later, by rw [same, List.cons_append], .splice due first, due', second⟩

end Trace

/-! Where neighbours that meet stand. -/

namespace Tree

variable {meets : Tree → Tree → Prop}

mutual

theorem exists_fill_joins : ∀ tree : Tree, tree.Joins meets → ∀ left right,
    ∃ frames before first second after,
      left ++ tree :: right = Frame.fill frames (before ++ first :: second :: after) ∧
        meets first second
  | leaf _, joins, _, _ => joins.elim
  | group bracket children, joins, left, right => by
      obtain ⟨frames, before, first, second, after, same, met⟩ :=
        exists_fill_joinsAll children joins []
      refine ⟨frames ++ [⟨left, bracket, right⟩], before, first, second, after, ?_, met⟩
      rw [Frame.fill_append, ← same]
      rfl

theorem exists_fill_joinsAll : ∀ trees : List Tree, JoinsAll meets trees → ∀ left,
    ∃ frames before first second after,
      left ++ trees = Frame.fill frames (before ++ first :: second :: after) ∧ meets first second
  | [], joins, _ => joins.elim
  | tree :: trees, joins, left => by
      rcases joins with ⟨next, follows, met⟩ | inside | later
      · obtain ⟨after, rfl⟩ := List.head?_eq_some_iff.mp follows
        exact ⟨[], left, tree, next, after, rfl, met⟩
      · exact exists_fill_joins tree inside left trees
      · have found := exists_fill_joinsAll trees later (left ++ [tree])
        rwa [List.append_assoc, List.singleton_append] at found

end

theorem face_of_bare {left right : List Tree} (same : left.map bare = right.map bare) :
    left.map face = right.map face := by
  have shells := congrArg (List.map shell) same
  rwa [List.map_map, List.map_map] at shells

/-- A row of siblings that has the given faces, at any depth. -/
def Shows (faces : List Tree) (trees : List Tree) : Prop :=
  ∃ frames before middle after,
    trees = Frame.fill frames (before ++ middle ++ after) ∧ middle.map face = faces

/-- Two trees with the faces of two given ones. -/
def Looks (first second left right : Tree) : Prop :=
  left.face = first.face ∧ right.face = second.face

theorem shows_of_joinsAll {first second : Tree} {trees : List Tree}
    (joins : JoinsAll (Looks first second) trees) : Shows [first.face, second.face] trees := by
  obtain ⟨frames, before, left, right, after, same, faceLeft, faceRight⟩ :=
    exists_fill_joinsAll trees joins []
  exact ⟨frames, before, [left, right], after, by simpa using same, by simp [faceLeft, faceRight]⟩

/-- Neighbours that meet become siblings with the given faces. -/
def Dissolves (meets : Tree → Tree → Prop) (faces : List Tree) : Prop :=
  ∀ {first second}, meets first second → ∀ after, ∃ left middle right,
    flattenAll (first :: second :: after) = left ++ middle ++ right ∧ middle.map face = faces

mutual

theorem shows_flatten {faces : List Tree} (dissolves : Dissolves meets faces) :
    ∀ tree : Tree, tree.Joins meets → ∀ row left right,
      row.map bare = left ++ tree.flatten.map bare ++ right → Shows faces row
  | leaf _, joins, _, _, _, _ => joins.elim
  | group bracket children, joins, row, left, right, same => by
      rw [flatten] at same
      split at same
      · rw [bare_prepend] at same
        exact shows_flattenAll dissolves children joins row left right same
      · obtain ⟨front, after, rfl, atFront, -⟩ := List.map_eq_append_iff.mp same
        obtain ⟨before, middle, rfl, -, here⟩ := List.map_eq_append_iff.mp atFront
        obtain ⟨kept, rfl, bareKept⟩ := List.map_eq_singleton_iff.mp here
        cases kept with
        | leaf token => contradiction
        | group keptBracket inner =>
            injection bareKept with _ sameInside
            subst sameInside
            obtain ⟨frames, left, middle, right, within, faces⟩ :=
              shows_flattenAll dissolves children joins (flattenAll children) [] [] (by simp)
            refine ⟨frames ++ [⟨before, keptBracket, after⟩], left, middle, right, ?_, faces⟩
            rw [Frame.fill_append, ← within]
            simp [Frame.fill]

theorem shows_flattenAll {faces : List Tree} (dissolves : Dissolves meets faces) :
    ∀ trees : List Tree, JoinsAll meets trees → ∀ row left right,
      row.map bare = left ++ (flattenAll trees).map bare ++ right → Shows faces row
  | [], joins, _, _, _, _ => joins.elim
  | tree :: trees, joins, row, left, right, same => by
      rcases joins with ⟨next, follows, met⟩ | inside | later
      · obtain ⟨after, rfl⟩ := List.head?_eq_some_iff.mp follows
        obtain ⟨ahead, middle, behind, whole, faces⟩ := dissolves met after
        rw [whole, List.map_append, List.map_append] at same
        obtain ⟨front, last, rfl, atFront, -⟩ := List.map_eq_append_iff.mp same
        obtain ⟨before, rest, rfl, -, inside⟩ := List.map_eq_append_iff.mp atFront
        obtain ⟨further, after', rfl, started, -⟩ := List.map_eq_append_iff.mp inside
        obtain ⟨early, here, rfl, -, middleSame⟩ := List.map_eq_append_iff.mp started
        refine ⟨[], before ++ early, here, after' ++ last, by simp [Frame.fill], ?_⟩
        rw [face_of_bare middleSame, faces]
      · refine shows_flatten dissolves tree inside row left ((flattenAll trees).map bare ++ right) ?_
        rw [same, flattenAll, List.map_append]
        simp only [List.append_assoc]
      · refine shows_flattenAll dissolves trees later row (left ++ tree.flatten.map bare) right ?_
        rw [same, flattenAll, List.map_append]
        simp only [List.append_assoc]

end

theorem Dissolves.shows {faces trees : List Tree} (dissolves : Dissolves meets faces)
    (joins : JoinsAll meets trees) : Shows faces (flattenAll trees) :=
  shows_flattenAll dissolves trees joins (flattenAll trees) [] [] (by simp)

end Tree

end Headfirst
