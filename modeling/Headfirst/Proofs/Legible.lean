import Headfirst.Proofs.Gaps
import Headfirst.Proofs.Passes
import Headfirst.Proofs.Reading

namespace Headfirst

open Headfirst.Tree

/-! Trees that can be read once they are written: their tokens were read somewhere, and the
trivia in front of each is complete.  Reading makes such trees, and a splice only moves them
around. -/

def Token.Legible (token : Token) : Prop :=
  token.text ≠ "" ∧
    (∃ rest, Lexeme.Reads (token.text.toList ++ rest) token.kind token.text.toList.length) ∧
    Trivia.Complete token.leading.toList

namespace Tree

mutual

def Legible : Tree → Prop
  | leaf token => token.Legible
  | group bracket children =>
      Trivia.Complete bracket.leading.toList ∧ Trivia.Complete bracket.closeLeading.toList ∧
        LegibleAll children

def LegibleAll : List Tree → Prop
  | [] => True
  | tree :: trees => tree.Legible ∧ LegibleAll trees

end

variable {tree : Tree} {trees left right : List Tree} {leading : String}

@[simp] theorem legibleAll_nil : LegibleAll [] := trivial

@[simp] theorem legibleAll_cons : LegibleAll (tree :: trees) ↔ tree.Legible ∧ LegibleAll trees :=
  .rfl

@[simp] theorem legibleAll_append :
    LegibleAll (left ++ right) ↔ LegibleAll left ∧ LegibleAll right := by
  induction left with
  | nil => simp
  | cons tree trees ih => simp [ih, and_assoc]

theorem legibleAll_iff_forall : LegibleAll trees ↔ ∀ tree ∈ trees, tree.Legible := by
  induction trees with
  | nil => simp
  | cons tree trees ih => simp [ih]

@[simp] theorem legibleAll_reverse : LegibleAll trees.reverse ↔ LegibleAll trees := by
  simp [legibleAll_iff_forall]

theorem Legible.complete_leading (legible : tree.Legible) :
    Trivia.Complete tree.leading.toList := by
  cases tree with
  | leaf token => exact legible.2.2
  | group bracket children => exact legible.1

theorem Legible.withLeading (legible : tree.Legible) (complete : Trivia.Complete leading.toList) :
    (tree.withLeading leading).Legible := by
  cases tree with
  | leaf token => exact ⟨legible.1, legible.2.1, complete⟩
  | group bracket children => exact ⟨complete, legible.2⟩

theorem Legible.separated (legible : tree.Legible) : tree.separated.Legible := by
  unfold Tree.separated
  split
  · exact legible.withLeading Trivia.complete_space
  · exact legible

theorem LegibleAll.prepend (legible : LegibleAll trees)
    (complete : Trivia.Complete leading.toList) : LegibleAll (prepend leading trees) := by
  cases trees with
  | nil => trivial
  | cons tree trees =>
      refine ⟨legible.1.withLeading ?_, legible.2⟩
      rw [String.toList_append]
      exact complete.append legible.1.complete_leading

mutual

theorem legibleAll_flatten : ∀ tree : Tree, tree.Legible → LegibleAll tree.flatten
  | leaf token, legible => ⟨legible, trivial⟩
  | group bracket children, legible => by
      obtain ⟨before, behind, inside⟩ := legible
      have inside := legibleAll_flattenAll children inside
      rw [flatten]
      split
      · exact inside.prepend before
      · exact ⟨⟨before, behind, inside⟩, trivial⟩

theorem legibleAll_flattenAll : ∀ trees : List Tree, LegibleAll trees →
    LegibleAll (flattenAll trees)
  | [], _ => trivial
  | tree :: trees, legible => by
      rw [flattenAll, legibleAll_append]
      exact ⟨legibleAll_flatten tree legible.1, legibleAll_flattenAll trees legible.2⟩

end

end Tree

/-! A splice. -/

namespace Replacement

variable {operand body : List Tree} {head : Head}

theorem legibleAll_bareOperand (legible : LegibleAll operand) :
    LegibleAll (bareOperand operand) := by
  cases operand with
  | nil => trivial
  | cons tree trees => exact ⟨legible.1.withLeading Trivia.complete_nil, legible.2⟩

theorem legible_wrapped (parenthesize : Bool) (legible : LegibleAll operand) :
    (wrapped parenthesize operand).Legible := by
  have bare := legibleAll_bareOperand legible
  unfold wrapped
  simp only
  split
  · exact ⟨Trivia.complete_nil, Trivia.complete_nil, bare⟩
  · split
    · rename_i single
      rw [single] at bare
      exact bare.1
    · exact ⟨Trivia.complete_nil, Trivia.complete_nil, bare⟩

theorem legibleAll_spaced {trees : List Tree} (legible : LegibleAll trees) :
    LegibleAll (spaced trees) := by
  cases trees with
  | nil => trivial
  | cons tree trees =>
      refine ⟨legible.1.withLeading Trivia.complete_nil, legibleAll_iff_forall.mpr ?_⟩
      intro other member
      obtain ⟨inner, within, rfl⟩ := List.mem_map.mp member
      exact (legibleAll_iff_forall.mp legible.2 inner within).separated

theorem legible_make (parenthesize : Bool) (legible : LegibleAll operand)
    (legibleHead : LegibleAll head.trees) (legibleBody : LegibleAll body) :
    (make parenthesize operand head body).Legible := by
  refine ⟨?_, Trivia.complete_nil, legibleAll_spaced ?_⟩
  · cases operand with
    | nil => exact Trivia.complete_nil
    | cons tree trees => exact legible.1.complete_leading
  · rw [legibleAll_append]
    exact ⟨legibleHead, legible_wrapped parenthesize legible, legibleBody⟩

end Replacement

theorem Site.legibleAll_spliced {site : Site} {reach : Nat} {occurrence : Occurrence}
    (resolved : site.resolve reach = .ok occurrence) (parenthesize : Bool)
    (legible : LegibleAll site.trees) : LegibleAll (Site.spliced occurrence parenthesize) := by
  obtain ⟨group, parsed, -, before, after⟩ := Site.resolve_parts resolved
  obtain ⟨bracket, rfl⟩ := Head.eq_group parsed
  rw [Site.trees, before, after] at legible
  simp only [legibleAll_append, legibleAll_cons] at legible
  obtain ⟨⟨before, operand⟩, -, ⟨-, -, head⟩, body, after⟩ := legible
  rw [Site.spliced, legibleAll_append]
  exact ⟨before, Replacement.legible_make parenthesize operand head body, after⟩

theorem kept_legibleAll (parenthesize : Bool) : Splice.Kept parenthesize LegibleAll where
  within {before bracket trees after} _ legible := by
    simp only [legibleAll_append, legibleAll_cons] at legible ⊢
    obtain ⟨before, ⟨opening, closing, inside⟩, after⟩ := legible
    exact ⟨inside, fun others _ other => ⟨before, ⟨opening, closing, other⟩, after⟩⟩
  spliced resolved legible := Site.legibleAll_spliced resolved parenthesize legible

namespace Fragment

theorem legibleAll_of_front {settings : Settings} {fragment result : Fragment}
    (ran : (fragment.front settings).result = .ok result) (legible : LegibleAll fragment.children) :
    LegibleAll result.children := by
  obtain ⟨rounds, middle, last, final, course, -, succeeded⟩ := front_course settings fragment
  obtain ⟨rfl, rfl, -⟩ := succeeded result ran
  have legible := (kept_legibleAll _).trace course.trace legible
  rcases settle_cases settings final with kept | dissolved
  · rwa [kept]
  · rw [dissolved]
    exact legibleAll_flattenAll final legible

/-! Reading. -/

theorem preserved_legible :
    Preserved fun opened before _ =>
      (∀ bracket ∈ opened, Trivia.Complete bracket.leading.toList ∧ LegibleAll bracket.before) ∧
        LegibleAll before where
  opener {opened before _ text char rest _} legible found _ := by
    refine ⟨fun bracket member => ?_, trivial⟩
    rcases List.mem_cons.mp member with rfl | member
    · exact ⟨by rw [String.toList_ofList]; exact Trivia.complete_of_token found, legible.2⟩
    · exact legible.1 bracket member
  closer {innermost opened before _ text char rest _} legible found _ _ := by
    obtain ⟨leading, siblings⟩ := legible.1 innermost (List.mem_cons_self ..)
    refine ⟨fun bracket member => legible.1 bracket (List.mem_cons_of_mem _ member), ⟨?_, siblings⟩⟩
    refine ⟨leading, ?_, legibleAll_reverse.mpr legible.2⟩
    rw [String.toList_ofList]
    exact Trivia.complete_of_token found
  token {opened before _ text char rest kind further} legible found token := by
    have reads := Lexeme.reads_iff.mpr token
    have bound : further ≤ rest.length := by simpa using reads.le_length
    refine ⟨legible.1, ⟨⟨by simp, ⟨rest.drop further, ?_⟩, ?_⟩, legible.2⟩⟩
    · simpa [List.length_take, Nat.min_eq_left bound] using reads
    · rw [String.toList_ofList]
      exact Trivia.complete_of_token found

theorem legibleAll_of_read {source file : String} {fragment : Fragment}
    (done : read source file = .ok fragment) : LegibleAll fragment.children :=
  legibleAll_reverse.mp (preserved_legible.of_read ⟨by simp, trivial⟩ done).1.2

end Fragment

end Headfirst
