import Headfirst.Fronting.Pass

namespace Headfirst

open Headfirst.Tree

/-! Induction over a pass.  A pass scans a sequence and then goes through what the scan has
left, which is no larger; so what is to be shown of sequences and of the groups below them
is shown for a scan, for an empty rest, and for each kind of tree. -/

namespace Outcome

variable {α β : Type} {outcome : Outcome α}

/-- Work that goes on where other work is done. -/
def bind (outcome : Outcome α) (next : α → Progress → Outcome β) : Outcome β :=
  match outcome with
  | .done value progress => next value progress
  | .stopped failure progress => .stopped failure progress

theorem bind_eq_done {next : α → Progress → Outcome β} {result : β} {after : Progress} :
    outcome.bind next = .done result after ↔
      ∃ value between, outcome = .done value between ∧ next value between = .done result after := by
  cases outcome with
  | done value between =>
      constructor
      · intro continued
        exact ⟨value, between, rfl, continued⟩
      · rintro ⟨other, progress, same, continued⟩
        cases same
        exact continued
  | stopped failure between => simp [bind]

end Outcome

namespace Fronting

variable (settings : Settings) (progress : Progress)

theorem sequence_eq (trees : List Tree) :
    sequence settings trees progress =
      (siblings settings 0 [] trees progress).bind (below settings) := by
  rw [sequence]
  cases siblings settings 0 [] trees progress <;> rfl

theorem below_nil : below settings [] progress = .done [] progress := by
  rw [below]

theorem below_leaf (token : Token) (trees : List Tree) :
    below settings (.leaf token :: trees) progress =
      (below settings trees progress).bind fun result => .done (.leaf token :: result) := by
  rw [below]
  cases below settings trees progress <;> rfl

theorem below_group (bracket : Bracket) (children trees : List Tree) :
    below settings (.group bracket children :: trees) progress =
      (sequence settings children progress).bind fun inner between =>
        (below settings trees between).bind fun result =>
          .done (.group bracket inner :: result) := by
  rw [below]
  cases sequence settings children progress with
  | stopped failure between => rfl
  | done inner between =>
      simp only [Outcome.bind]
      cases below settings trees between <;> rfl

/-- Induction over a pass: `ofSequence` is to be shown of the sequences, `ofBelow` of what
a pass has still to go through. -/
theorem pass_induction {ofSequence ofBelow : List Tree → Prop}
    (scan : ∀ trees, (∀ scanned, sizeAll scanned ≤ sizeAll trees → ofBelow scanned) →
      ofSequence trees)
    (nil : ofBelow [])
    (leaf : ∀ token trees, ofBelow trees → ofBelow (.leaf token :: trees))
    (group : ∀ bracket children trees, ofSequence children → ofBelow trees →
      ofBelow (.group bracket children :: trees)) :
    (∀ trees, ofSequence trees) ∧ ∀ trees, ofBelow trees := by
  have bounded (bound : Nat) : ∀ trees, sizeAll trees ≤ bound → ofBelow trees := by
    induction bound with
    | zero =>
        intro trees size
        cases trees with
        | nil => exact nil
        | cons tree trees =>
            have positive : 0 < tree.size := by
              cases tree <;> simp only [Tree.size] <;> omega
            simp only [sizeAll] at size
            omega
    | succ bound ih =>
        intro trees size
        cases trees with
        | nil => exact nil
        | cons tree trees =>
            simp only [sizeAll] at size
            cases tree with
            | leaf token =>
                simp only [Tree.size] at size
                exact leaf token trees (ih trees (by omega))
            | group bracket children =>
                simp only [Tree.size] at size
                refine group bracket children trees (scan children ?_) (ih trees (by omega))
                intro scanned smaller
                exact ih scanned (by omega)
  have through (trees : List Tree) : ofBelow trees :=
    bounded (sizeAll trees) trees (Nat.le_refl _)
  exact ⟨fun trees => scan trees fun scanned _ => through scanned, through⟩

end Fronting

end Headfirst
