import Headfirst.Occurrence.Basic

namespace Headfirst

/-! An occurrence divides its sequence without loss: the trees of the head are those of
its group, and operand and body lie where they were found. -/

namespace Head

theorem complete_eq_ok {what : String} {head result : Head} {rest : List Tree}
    (parsed : complete what head rest = .ok result) : result = head ∧ rest = [] := by
  cases rest with
  | nil =>
      cases parsed
      exact ⟨rfl, rfl⟩
  | cons tree rest => contradiction

theorem binding_trees {construct : Construct} {label rest : List Tree} {keywords : List Token}
    {link : String} {head : Head}
    (parsed : binding { construct, label, keywords } link rest = .ok head) :
    head.trees = label ++ keywords.map .leaf ++ rest := by
  unfold binding at parsed
  simp only at parsed
  split at parsed
  · contradiction
  · rename_i token last
    split at parsed
    · split at parsed
      · contradiction
      · cases parsed
        obtain ⟨pattern, rfl⟩ := List.getLast?_eq_some_iff.mp last
        simp [trees]
    · contradiction
  · contradiction

theorem condition_trees {plain withLet : Construct} {label rest : List Tree} {keyword : Token}
    {head : Head} (parsed : condition plain withLet label keyword rest = .ok head) :
    head.trees = label ++ .leaf keyword :: rest := by
  unfold condition at parsed
  split at parsed
  · cases parsed
    simp [trees]
  · split at parsed
    · simpa using binding_trees parsed
    · contradiction
  · contradiction

theorem modified_trees {construct : Construct} {what modifier : String}
    {label rest : List Tree} {keyword : Token} {head : Head}
    (parsed : modified construct what modifier label keyword rest = .ok head) :
    head.trees = label ++ .leaf keyword :: rest := by
  unfold modified at parsed
  split at parsed
  · split at parsed
    · obtain ⟨rfl, rfl⟩ := complete_eq_ok parsed
      simp [trees]
    · contradiction
  · obtain ⟨rfl, rfl⟩ := complete_eq_ok parsed
    simp [trees]

theorem leaving_trees {label rest : List Tree} {keyword : Token} {head : Head}
    (parsed : leaving label keyword rest = .ok head) :
    head.trees = label ++ .leaf keyword :: rest := by
  unfold leaving at parsed
  split at parsed
  · split at parsed
    · obtain ⟨rfl, rfl⟩ := complete_eq_ok parsed
      simp [trees]
    · contradiction
  · cases parsed
    simp [trees]

theorem complete_trees {construct : Construct} {what : String} {label rest : List Tree}
    {keyword : Token} {head : Head}
    (parsed : complete what { construct, label, keywords := [keyword] } rest = .ok head) :
    head.trees = label ++ .leaf keyword :: rest := by
  obtain ⟨rfl, rfl⟩ := complete_eq_ok parsed
  simp [trees]

theorem ofKeyword_trees {label rest : List Tree} {keyword : Token} {head : Head}
    (parsed : ofKeyword label keyword rest = .ok head) :
    head.trees = label ++ .leaf keyword :: rest := by
  unfold ofKeyword at parsed
  simp only at parsed
  split at parsed
  · split at parsed
    case h_8 | h_9 => exact condition_trees parsed
    case h_10 | h_11 => simpa using binding_trees parsed
    case h_12 => exact modified_trees parsed
    case h_13 => exact leaving_trees parsed
    case h_14 => contradiction
    all_goals exact complete_trees parsed
  · split at parsed
    · split at parsed
      case h_1 | h_2 => exact modified_trees parsed
      case h_6 => contradiction
      all_goals exact complete_trees parsed
    · contradiction

theorem ofLabelled_trees {label rest : List Tree} {head : Head}
    (parsed : ofLabelled label rest = .ok head) : head.trees = label ++ rest := by
  unfold ofLabelled at parsed
  split at parsed
  · cases parsed
    simp [trees]
  · split at parsed
    · contradiction
    · rename_i inner
      split at parsed
      · cases parsed
        exact ofKeyword_trees inner
      · contradiction
  · contradiction

/-- A head keeps every tree of its group, in order. -/
theorem ofTrees_trees {group : Tree} {children : List Tree} {head : Head}
    (parsed : ofTrees group children = .ok head) : head.trees = children := by
  unfold ofTrees at parsed
  split at parsed
  · contradiction
  · split at parsed
    · split at parsed
      · split at parsed
        · simpa using ofLabelled_trees parsed
        · contradiction
      · contradiction
    · simpa using ofLabelled_trees parsed

theorem ofGroup_trees {tree : Tree} {head : Head} (parsed : ofGroup tree = .ok head) :
    head.trees = tree.children := by
  unfold ofGroup at parsed
  split at parsed
  · exact ofTrees_trees parsed
  · contradiction

theorem ofGroup_isGroup {tree : Tree} {head : Head} (parsed : ofGroup tree = .ok head) :
    tree.isGroup .paren = true := by
  unfold ofGroup at parsed
  split at parsed
  · assumption
  · contradiction

end Head

namespace Operand

variable {reach : Nat} {before operand : List Tree} {marker : Tree}

theorem take_eq_take_length (taken : take reach before marker = .ok operand) :
    operand = before.take (length reach before) ∧ operand ≠ [] := by
  unfold take at taken
  split at taken
  · contradiction
  · rename_i last others found
    rw [found]
    split at taken
    · split at taken
      · contradiction
      · cases taken
        exact ⟨rfl, by simp⟩
    · cases taken
      exact ⟨rfl, by simp⟩

theorem length_of_take (taken : take reach before marker = .ok operand) :
    operand.length = length reach before := by
  rw [(take_eq_take_length taken).1, List.length_take]
  exact Nat.min_eq_left (length_le reach before)

theorem take_eq_ok (taken : take reach before marker = .ok operand) :
    operand = before.take operand.length ∧ operand ≠ [] := by
  rw [length_of_take taken]
  exact take_eq_take_length taken

end Operand

namespace Site

/-- What an occurrence is made of: its sequence, cut into five stretches. -/
theorem divide_eq_ok {site : Site} {reach : Nat} {occurrence : Occurrence}
    (divided : site.divide reach = .ok occurrence) :
    occurrence.operand.reverse ++ occurrence.before = site.before ∧
      occurrence.operand ≠ [] ∧
      ∃ group, Head.ofGroup group = .ok occurrence.head ∧
        group :: occurrence.body ++ occurrence.after = site.after := by
  unfold divide at divided
  split at divided
  · contradiction
  · rename_i operand taken
    split at divided
    · contradiction
    · rename_i group after following
      split at divided
      · contradiction
      · rename_i head parsed
        split at divided
        · contradiction
        · rename_i body rest captured
          cases divided
          obtain ⟨cut, nonempty⟩ := Operand.take_eq_ok taken
          refine ⟨?_, by simpa using nonempty, group, parsed, ?_⟩
          · rw [List.reverse_reverse]
            conv => lhs; lhs; rw [cut]
            exact List.take_append_drop ..
          · rw [following, ← Body.take_append captured]
            rfl

theorem resolve_eq_ok {site : Site} {reach : Nat} {occurrence : Occurrence} :
    site.resolve reach = .ok occurrence ↔ site.divide reach = .ok occurrence := by
  unfold resolve
  split <;> simp_all

end Site

namespace Replacement

open Headfirst.Tree

theorem sizeAll_bareOperand (operand : List Tree) :
    sizeAll (bareOperand operand) = sizeAll operand := by
  cases operand <;> simp [bareOperand, sizeAll]

theorem size_wrapped_le (parenthesize : Bool) (operand : List Tree) :
    (wrapped parenthesize operand).size ≤ 1 + sizeAll operand := by
  have bare := sizeAll_bareOperand operand
  unfold wrapped
  simp only
  split
  · simp [size, bare]
  · split
    · rename_i found
      rw [found] at bare
      simp only [sizeAll] at bare
      omega
    · simp [size, bare]

theorem sizeAll_spaced (trees : List Tree) : sizeAll (spaced trees) = sizeAll trees := by
  cases trees <;> simp [spaced, sizeAll, sizeAll_map_separated]

end Replacement

namespace Site

open Headfirst.Tree

/-- A splice does not make the sequence larger: the marker and the head's parentheses
make room for the replacement and the operand's parentheses. -/
theorem size_replacement_le {site : Site} {reach : Nat} {occurrence : Occurrence}
    (resolved : site.resolve reach = .ok occurrence) (parenthesize : Bool) :
    sizeAll occurrence.before + (occurrence.replacement parenthesize).size +
        sizeAll occurrence.after ≤
      sizeAll site.before + site.marker.size + sizeAll site.after := by
  obtain ⟨before, _, group, parsed, after⟩ := divide_eq_ok (resolve_eq_ok.mp resolved)
  have inner := Head.ofGroup_trees parsed
  have isGroup := Head.ofGroup_isGroup parsed
  have operandSize := Replacement.size_wrapped_le parenthesize occurrence.operand
  rw [← before, ← after]
  cases group with
  | leaf token => contradiction
  | group bracket children =>
      have marker : 0 < site.marker.size := by cases site.marker <;> simp only [size] <;> omega
      simp only [Occurrence.replacement, Replacement.make, size, Replacement.sizeAll_spaced,
        sizeAll_append, sizeAll, inner, Tree.children, sizeAll_reverse, List.cons_append]
      omega

theorem length_after_lt {site : Site} {reach : Nat} {occurrence : Occurrence}
    (resolved : site.resolve reach = .ok occurrence) :
    occurrence.after.length < site.after.length := by
  obtain ⟨_, _, group, _, after⟩ := divide_eq_ok (resolve_eq_ok.mp resolved)
  rw [← after]
  simp only [List.cons_append, List.length_cons, List.length_append]
  omega

end Site

end Headfirst
