import Headfirst.Fronting.Siblings

namespace Headfirst

/-! What is wrong with an occurrence that cannot be resolved lies in its operand, its head
or its body; it is never a bound on the work. -/

namespace Fault

/-- Whether a bound on the work is what has been exceeded. -/
def isLimit (fault : Fault) : Bool :=
  match fault.category with
  | .limit _ => true
  | _ => false

end Fault

/-- A result that fails, if it does, at the way something is written. -/
structure Unlimited {α : Type} (result : Except Failure α) : Prop where
  fault : ∀ failure, result = .error failure → failure.fault.isLimit = false

/-- A result that fails, if it does, at one of some trees, by the way something is written.  The
marker of the occurrence is not named yet. -/
structure Blames {α : Type} (trees : List Tree) (result : Except Failure α) : Prop
    extends Unlimited result where
  tree : ∀ failure, result = .error failure → ∃ tree ∈ trees, failure.span = tree.span
  unmarked : ∀ failure, result = .error failure → failure.marker = none

namespace Blames

variable {α β : Type} {trees others : List Tree} {result : Except Failure α}

theorem ok (value : α) : Blames trees (.ok value : Except Failure α) := by
  refine ⟨⟨?_⟩, ?_, ?_⟩
  all_goals
    intro failure failed
    contradiction

theorem error {fault : Fault} {span : Span} {tree : Tree} (unlimited : fault.isLimit = false)
    (member : tree ∈ trees) (same : span = tree.span) :
    Blames trees (.error ⟨fault, span, none⟩ : Except Failure α) := by
  refine ⟨⟨?_⟩, ?_, ?_⟩
  all_goals
    intro other failed
    cases failed
  · exact unlimited
  · exact ⟨tree, member, same⟩
  · rfl

theorem mono (blames : Blames trees result) (within : trees ⊆ others) : Blames others result := by
  refine ⟨blames.toUnlimited, ?_, blames.unmarked⟩
  intro failure failed
  obtain ⟨tree, member, span⟩ := blames.tree failure failed
  exact ⟨tree, within member, span⟩

/-- The failure of a part is that of the whole. -/
theorem pass (blames : Blames trees result) {failure : Failure} (failed : result = .error failure)
    (within : trees ⊆ others) : Blames others (.error failure : Except Failure β) := by
  have wider := blames.mono within
  refine ⟨⟨?_⟩, ?_, ?_⟩
  all_goals
    intro other same
    cases same
  · exact wider.fault failure failed
  · exact wider.tree failure failed
  · exact wider.unmarked failure failed

end Blames

namespace Head

theorem blames_complete (construct : String) (head : Head) (rest : List Tree) :
    Blames rest (complete construct head rest) := by
  cases rest with
  | nil => exact .ok _
  | cons tree rest => exact .error rfl List.mem_cons_self rfl

theorem blames_binding {head : Head} {keyword : Token}
    (last : head.keywords.getLast? = some keyword) (link : String) (rest : List Tree) :
    Blames (.leaf keyword :: rest) (binding head link rest) := by
  unfold binding
  simp only
  split
  · exact .error rfl List.mem_cons_self (by rw [last]; rfl)
  · rename_i token found
    have member : Tree.leaf token ∈ Tree.leaf keyword :: rest :=
      List.mem_cons_of_mem _ (List.mem_of_getLast? found)
    split
    · split
      · exact .error rfl member rfl
      · exact .ok _
    · exact .error rfl member rfl
  · rename_i found
    exact .error rfl (List.mem_cons_of_mem _ (List.mem_of_getLast? found)) rfl

theorem blames_condition (plain withLet : Construct) (label : List Tree) (keyword : Token)
    (rest : List Tree) : Blames rest (condition plain withLet label keyword rest) := by
  unfold condition
  split
  · exact .ok _
  · split
    · exact blames_binding rfl ..
    · exact .error rfl List.mem_cons_self rfl
  · exact .error rfl List.mem_cons_self rfl

theorem blames_modified (construct : Construct) (what modifier : String) (label : List Tree)
    (keyword : Token) (rest : List Tree) :
    Blames rest (modified construct what modifier label keyword rest) := by
  unfold modified
  split
  · split
    · exact (blames_complete ..).mono (List.subset_cons_self ..)
    · exact .error rfl List.mem_cons_self rfl
  · exact blames_complete ..

theorem blames_leaving (label : List Tree) (keyword : Token) (rest : List Tree) :
    Blames rest (leaving label keyword rest) := by
  unfold leaving
  split
  · split
    · exact (blames_complete ..).mono (List.subset_cons_self ..)
    · exact .error rfl List.mem_cons_self rfl
  · exact .ok _

theorem blames_ofKeyword (label : List Tree) (keyword : Token) (rest : List Tree) :
    Blames (.leaf keyword :: rest) (ofKeyword label keyword rest) := by
  have behind : rest ⊆ .leaf keyword :: rest := List.subset_cons_self ..
  unfold ofKeyword
  simp only
  split
  · split
    case h_8 | h_9 => exact (blames_condition ..).mono behind
    case h_10 | h_11 => exact blames_binding rfl ..
    case h_12 => exact (blames_modified ..).mono behind
    case h_13 => exact (blames_leaving ..).mono behind
    case h_14 => exact .error rfl List.mem_cons_self rfl
    all_goals exact (blames_complete ..).mono behind
  · split
    · split
      case h_1 | h_2 => exact (blames_modified ..).mono behind
      case h_6 => exact .error rfl List.mem_cons_self rfl
      all_goals exact (blames_complete ..).mono behind
    · exact .error rfl List.mem_cons_self rfl

theorem blames_ofLabelled (label rest : List Tree) : Blames rest (ofLabelled label rest) := by
  unfold ofLabelled
  split
  · exact .ok _
  · rename_i keyword rest
    split
    · rename_i failure failed
      exact (blames_ofKeyword label keyword rest).pass failed (List.Subset.refl _)
    · split
      · exact .ok _
      · exact .error rfl List.mem_cons_self rfl
  · exact .error rfl List.mem_cons_self rfl

theorem blames_ofTrees (group : Tree) (children : List Tree) :
    Blames (group :: children) (ofTrees group children) := by
  unfold ofTrees
  split
  · exact .error rfl List.mem_cons_self rfl
  · rename_i first rest
    have inside : first ∈ group :: first :: rest := List.mem_cons_of_mem _ List.mem_cons_self
    split
    · split
      · split
        · refine (blames_ofLabelled ..).mono ?_
          intro tree member
          simp [member]
        · exact .error rfl inside rfl
      · exact .error rfl inside rfl
    · exact (blames_ofLabelled ..).mono (List.subset_cons_self ..)

theorem blames_ofGroup (tree : Tree) : Blames (tree :: tree.children) (ofGroup tree) := by
  unfold ofGroup
  split
  · exact blames_ofTrees ..
  · exact .error rfl List.mem_cons_self rfl

end Head

namespace Body

theorem blames_elseChain (trees : List Tree) : Blames trees (elseChain trees) := by
  fun_induction elseChain trees with
  | case1 => exact .ok _
  | case2 => exact .error rfl List.mem_cons_self rfl
  | case3 => exact .ok _
  | case4 tree opens next => exact .error rfl (List.mem_cons_of_mem _ List.mem_cons_self) rfl
  | case5 tree opens next rest notBlock isIf link after found failure failed ih =>
      refine ih.pass failed ?_
      rw [← guardedBlock_append found]
      intro tree member
      simp [member]
  | case6 => exact .ok _
  | case7 => exact .error rfl (List.mem_cons_of_mem _ List.mem_cons_self) rfl
  | case8 => exact .ok _

theorem blames_take (head : Head) (group : Tree) (after : List Tree) :
    Blames (group :: after) (take head group after) := by
  unfold take
  split
  · split
    · exact .error rfl List.mem_cons_self rfl
    · rename_i body rest
      split
      · split
        · split
          · rename_i failure failed
            refine (blames_elseChain rest).pass failed ?_
            intro tree member
            simp [member]
          · exact .ok _
        · exact .ok _
      · exact .error rfl (List.mem_cons_of_mem _ List.mem_cons_self) rfl
  · exact .ok _

end Body

theorem Operand.blames_take (reach : Nat) (before : List Tree) (marker : Tree) :
    Blames (marker :: before) (take reach before marker) := by
  unfold take
  split
  · exact .error rfl List.mem_cons_self rfl
  · rename_i last others found
    have near : last ∈ before := by
      refine List.mem_of_mem_take (i := length reach before) ?_
      rw [found]
      exact List.mem_cons_self
    split
    · split
      · exact .error rfl (List.mem_cons_of_mem _ near) rfl
      · exact .ok _
    · exact .ok _

namespace Site

/-- The trees at which an occurrence can be malformed: those of its sequence and those of its
head. -/
def suspects (site : Site) : List Tree :=
  site.before ++ site.marker :: site.after ++ site.after.head?.elim [] Tree.children

theorem blames_divide (site : Site) (reach : Nat) : Blames site.suspects (site.divide reach) := by
  have marker : site.marker ∈ site.suspects := by simp [suspects]
  unfold divide
  split
  · rename_i failure failed
    refine (Operand.blames_take reach site.before site.marker).pass failed ?_
    intro tree member
    rcases List.mem_cons.mp member with rfl | member
    · exact marker
    · simp [suspects, member]
  · split
    · exact .error rfl marker rfl
    · rename_i group after following
      split
      · rename_i failure failed
        refine (Head.blames_ofGroup group).pass failed ?_
        intro tree member
        rcases List.mem_cons.mp member with rfl | member
        · simp [suspects, following]
        · simp [suspects, following, member]
      · split
        · rename_i failure failed
          refine (Body.blames_take _ group after).pass failed ?_
          intro tree member
          have among : tree ∈ site.after := following ▸ member
          simp [suspects, among]
        · exact .ok _

/-- An occurrence that cannot be resolved is malformed at one of its suspects, and names its marker
unless it is malformed there. -/
theorem resolve_error {site : Site} {reach : Nat} {failure : Failure}
    (failed : site.resolve reach = .error failure) :
    failure.fault.isLimit = false ∧ (∃ tree ∈ site.suspects, failure.span = tree.span) ∧
      failure.marker =
        if failure.span = site.marker.span then none else some site.marker.span := by
  have blames := site.blames_divide reach
  unfold resolve at failed
  split at failed
  · contradiction
  · rename_i inner divided
    have fault := blames.fault inner divided
    have suspect := blames.tree inner divided
    split at failed
    · rename_i atMarker
      cases failed
      exact ⟨fault, suspect, by rw [if_pos atMarker, blames.unmarked _ divided]⟩
    · rename_i elsewhere
      cases failed
      exact ⟨fault, suspect, by rw [if_neg elsewhere]⟩

end Site

end Headfirst
