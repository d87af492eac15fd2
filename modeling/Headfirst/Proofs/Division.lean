import Headfirst.Proofs.Seams
import Headfirst.Proofs.Twins

namespace Headfirst

open Headfirst.Tree Headfirst.Pair

/-! Two runs divide a sequence at the same places, or report the same failure. -/

/-- No pair behind a `::` looks different. -/
theorem Pair.Placed.isAlike_of_path {before : List Pair} {separator pair : Pair}
    (placed : Placed (separator :: before) pair) (isPath : separator.1.isPunct "::" = true) :
    pair.IsAlike := by
  rcases placed.anchored with alike | anchored
  · exact alike
  · have ends : separator.1.endsHead = true := by simpa using anchored
    rw [isPunct_of_isPlainToken _ (isPlainToken_of_endsHead _ ends)] at isPath
    contradiction

/-- What two runs come to: related values, or the same failure. -/
inductive Agree {α β : Type} (related : α → β → Prop) :
    Except Failure α → Except Failure β → Prop where
  | ok {left : α} {right : β} (holds : related left right) : Agree related (.ok left) (.ok right)
  | error (failure : Failure) : Agree related (.error failure) (.error failure)

theorem Agree.of_map {α β : Type} {view : α → β} {left right : Except Failure α}
    (same : left.map view = right.map view) :
    Agree (fun left right => view left = view right) left right := by
  cases left with
  | error failure =>
      cases right with
      | error other =>
          cases same
          exact .error failure
      | ok value => contradiction
  | ok value =>
      cases right with
      | error other => contradiction
      | ok other =>
          exact .ok (Except.ok.inj same)

theorem Agree.bind {α β γ δ : Type} {related : α → β → Prop} {final : γ → δ → Prop}
    {left : Except Failure α} {right : Except Failure β} (agree : Agree related left right)
    {next : α → Except Failure γ} {nextToo : β → Except Failure δ}
    (later : ∀ value other, left = .ok value → right = .ok other → related value other →
      Agree final (next value) (nextToo other)) :
    Agree final (left.bind next) (right.bind nextToo) := by
  cases agree with
  | error failure => exact .error failure
  | ok holds => exact later _ _ rfl rfl holds

namespace Operand

variable {before : List Pair}

/-- An operand that both runs take. -/
inductive Shared : (before : List Pair) → List Tree → List Tree → Prop where
  | intro {operand others : List Pair} (alike : ∀ pair ∈ operand, pair.IsAlike)
      (clear : Clear others) :
      Shared (operand ++ others) (operand.map Prod.fst) (operand.map Prod.snd)

theorem take_twin (reach : Nat) {marker : Pair} (same : marker.1.span = marker.2.span)
    (twins : ∀ pair ∈ before, Twin pair) (clear : Clear before) :
    Agree (Shared before) (take reach (before.map Prod.fst) marker.1)
      (take reach (before.map Prod.snd) marker.2) := by
  have count := length_twin reach twins clear
  obtain ⟨alike, others⟩ := alike_of_clear clear (goesOn_length reach (before.map Prod.fst))
  have shared := Agree.ok (Shared.intro alike others)
  rw [List.take_append_drop] at shared
  unfold take
  rw [← count, ← List.map_take, ← List.map_take]
  cases taken : before.take (length reach (before.map Prod.fst)) with
  | nil =>
      rw [List.map_nil, List.map_nil, same]
      exact .error _
  | cons last farther =>
      have twin : Twin last := twins last (List.mem_of_mem_take (by rw [taken]; simp))
      rw [taken] at alike shared
      rw [List.forall_mem_cons] at alike
      have dangling := twin.isPunctIn danglingOperators
      cases twin with
      | group | wrapped | kept => exact shared
      | leaf equal =>
          rename_i left right
          rw [List.map_cons, List.map_cons] at shared ⊢
          have text := congrArg Token.text equal
          rw [Token.text_bare, Token.text_bare] at text
          simp only [← dangling, text, ← alike.1.span]
          split
          · exact .error _
          · exact shared

end Operand

/-! The head behind it. -/

namespace Head

variable {pair : Pair}

theorem ofGroup_twin (twin : Twin pair) (alike : pair.IsAlike) :
    Agree (fun left right => left.face = right.face) (ofGroup pair.1) (ofGroup pair.2) := by
  unfold ofGroup
  rw [missing, missing, alike.isGroup, alike.span]
  split
  · rename_i isParen
    cases twin with
    | leaf => contradiction
    | wrapped paren invisible | kept paren inside invisible =>
        rw [Tree.isGroup, invisible] at isParen
        contradiction
    | group same twins ordered alikeAll =>
        rename_i left right pairs
        have delimiter := Bracket.delimiter_of_bare same
        have visible : left.delimiter ≠ .invisible := by
          intro invisible
          rw [Tree.isGroup, ← delimiter, invisible] at isParen
          contradiction
        exact .of_map (ofTrees_eq_of_face alike (map_face (alikeAll visible)))
  · exact .error _

end Head

/-! The body behind the head. -/

namespace Body

variable {before pairs : List Pair}

theorem span_block_twin (twins : ∀ pair ∈ pairs, Twin pair) :
    (pairs.map Prod.snd).takeWhile (!isBlock ·) =
        (pairs.takeWhile (!isBlock ·.1)).map Prod.snd ∧
      (pairs.map Prod.snd).dropWhile (!isBlock ·) =
        (pairs.dropWhile (!isBlock ·.1)).map Prod.snd := by
  induction pairs with
  | nil => exact ⟨rfl, rfl⟩
  | cons pair pairs ih =>
      rw [List.forall_mem_cons] at twins
      obtain ⟨taken, left⟩ := ih twins.2
      simp only [List.map_cons, List.takeWhile_cons, List.dropWhile_cons, ← twins.1.isBlock]
      split
      · exact ⟨by rw [taken, List.map_cons], left⟩
      · exact ⟨rfl, rfl⟩

theorem guardedBlock_twin (twins : ∀ pair ∈ pairs, Twin pair) :
    (guardedBlock (pairs.map Prod.fst) = none ∧ guardedBlock (pairs.map Prod.snd) = none) ∨
      ∃ link after, pairs = link ++ after ∧
        guardedBlock (pairs.map Prod.fst) = some (link.map Prod.fst, after.map Prod.fst) ∧
        guardedBlock (pairs.map Prod.snd) = some (link.map Prod.snd, after.map Prod.snd) := by
  obtain ⟨taken, dropped⟩ := span_block_twin twins
  have whole := List.takeWhile_append_dropWhile (p := fun pair : Pair => !isBlock pair.1)
    (l := pairs)
  unfold guardedBlock
  rw [taken, dropped, List.takeWhile_map, List.dropWhile_map]
  simp only [Function.comp_def]
  cases condition : pairs.takeWhile (!isBlock ·.1) with
  | nil => exact .inl ⟨rfl, rfl⟩
  | cons first others =>
      cases rest : pairs.dropWhile (!isBlock ·.1) with
      | nil => exact .inl ⟨rfl, rfl⟩
      | cons block after =>
          refine .inr ⟨first :: others ++ [block], after, ?_, by simp, by simp⟩
          rw [← whole, condition, rest]
          simp

/-- A body that both runs take. -/
inductive Shared :
    (pairs : List Pair) → List Tree × List Tree → List Tree × List Tree → Prop where
  | intro (body after : List Pair) :
      Shared (body ++ after) (body.map Prod.fst, after.map Prod.fst)
        (body.map Prod.snd, after.map Prod.snd)

/-! The cases of an `else` chain. -/

section

variable {tree next : Tree} {rest : List Tree}

theorem elseChain_none (noElse : isElse tree = false) :
    elseChain (tree :: rest) = .ok ([], tree :: rest) := by
  cases rest <;> rw [elseChain, noElse, if_neg Bool.false_ne_true]

theorem elseChain_end (opens : isElse tree = true) :
    elseChain [tree] = .error ⟨.danglingElse, tree.span, none⟩ := by
  rw [elseChain, if_pos opens]

variable (opens : isElse tree = true)

include opens

theorem elseChain_block (block : isBlock next = true) :
    elseChain (tree :: next :: rest) = .ok ([tree, next], rest) := by
  rw [elseChain, if_pos opens]
  simp only [block, if_true]

theorem elseChain_stray (noBlock : isBlock next = false) (noIf : next.isKeyword "if" = false) :
    elseChain (tree :: next :: rest) = .error ⟨.danglingElse, next.span, none⟩ := by
  rw [elseChain, if_pos opens]
  simp only [noBlock, noIf, Bool.false_eq_true, if_false]

theorem elseChain_unguarded (noBlock : isBlock next = false) (isIf : next.isKeyword "if" = true)
    (none : guardedBlock rest = none) :
    elseChain (tree :: next :: rest) = .error ⟨.incompleteElseIf, next.span, Option.none⟩ := by
  rw [elseChain, if_pos opens]
  simp only [noBlock, isIf, Bool.false_eq_true, if_false, if_true]
  split
  · rfl
  · rename_i link after found
    rw [none] at found
    contradiction

theorem elseChain_link (noBlock : isBlock next = false) (isIf : next.isKeyword "if" = true)
    {link after : List Tree} (found : guardedBlock rest = some (link, after)) :
    elseChain (tree :: next :: rest) =
      (elseChain after).map fun parts => (tree :: next :: link ++ parts.1, parts.2) := by
  rw [elseChain, if_pos opens]
  simp only [noBlock, isIf, Bool.false_eq_true, if_false, if_true]
  split
  · rename_i none
    rw [found] at none
    contradiction
  · rename_i other behind same
    rw [found] at same
    cases same
    cases elseChain after <;> rfl

end

theorem agree_append (front : List Pair) {left right : Except Failure (List Tree × List Tree)}
    (agree : Agree (Shared pairs) left right) :
    Agree (Shared (front ++ pairs))
      (left.map fun parts => (front.map Prod.fst ++ parts.1, parts.2))
      (right.map fun parts => (front.map Prod.snd ++ parts.1, parts.2)) := by
  cases agree with
  | error failure => exact .error failure
  | ok shared =>
      cases shared with
      | intro body after =>
          have longer := Shared.intro (front ++ body) after
          rw [List.append_assoc, List.map_append, List.map_append] at longer
          exact .ok longer

theorem elseChain_twin {before pairs : List Pair} (twins : ∀ pair ∈ pairs, Twin pair)
    (ordered : Ordered before pairs) :
    Agree (Shared pairs) (elseChain (pairs.map Prod.fst)) (elseChain (pairs.map Prod.snd)) := by
  cases pairs with
  | nil =>
      rw [List.map_nil, List.map_nil, elseChain]
      exact .ok (.intro [] [])
  | cons pair pairs =>
      rw [List.forall_mem_cons] at twins
      have same : isElse pair.1 = isElse pair.2 := twins.1.isKeyword "else"
      rw [List.map_cons, List.map_cons]
      cases opens : isElse pair.1 with
      | false =>
          rw [elseChain_none opens, elseChain_none (same ▸ opens)]
          exact .ok (.intro [] (pair :: pairs))
      | true =>
          have opensToo : isElse pair.2 = true := same ▸ opens
          cases pairs with
          | nil =>
              rw [List.map_nil, List.map_nil, elseChain_end opens, elseChain_end opensToo,
                (twins.1.isAlike_of_anyToken opens).span]
              exact .error _
          | cons next pairs =>
              have others := twins.2
              rw [List.forall_mem_cons] at others
              obtain ⟨twin, others⟩ := others
              -- Nothing that looks different stands behind `else`.
              have alike : next.IsAlike := by
                rcases ordered.2.1.anchored with alike | anchored
                · exact alike
                · have ends : pair.1.endsHead = true := by simpa using anchored
                  rw [isElse, isKeyword_of_endsHead _ ends] at opens
                  contradiction
              rw [List.map_cons, List.map_cons]
              cases block : isBlock next.1 with
              | true =>
                  rw [elseChain_block opens block, elseChain_block opensToo (twin.isBlock ▸ block)]
                  exact .ok (.intro [pair, next] pairs)
              | false =>
                  have blockToo : isBlock next.2 = false := twin.isBlock ▸ block
                  cases isIf : next.1.isKeyword "if" with
                  | false =>
                      rw [elseChain_stray opens block isIf,
                        elseChain_stray opensToo blockToo (twin.isKeyword "if" ▸ isIf), alike.span]
                      exact .error _
                  | true =>
                      have isIfToo : next.2.isKeyword "if" = true := twin.isKeyword "if" ▸ isIf
                      rcases guardedBlock_twin others with ⟨none, noneToo⟩ |
                        ⟨link, after, rfl, found, foundToo⟩
                      · rw [elseChain_unguarded opens block isIf none,
                          elseChain_unguarded opensToo blockToo isIfToo noneToo, alike.span]
                        exact .error _
                      · rw [elseChain_link opens block isIf found,
                          elseChain_link opensToo blockToo isIfToo foundToo]
                        have behind := (ordered_append.mp ordered.2.2).2
                        have twinsAfter : ∀ pair ∈ after, Twin pair := fun pair member =>
                          others pair (List.mem_append_right _ member)
                        exact agree_append (pair :: next :: link)
                          (elseChain_twin twinsAfter behind)
termination_by pairs.length
decreasing_by
  simp_all only [List.length_cons, List.length_append]
  omega

theorem take_twin {left right : Head} {group : Pair} (same : left.face = right.face)
    (twins : ∀ pair ∈ pairs, Twin pair) (alike : group.IsAlike)
    (noEnd : group.1.endsHead = false) (ordered : Ordered (group :: before) pairs) :
    Agree (Shared pairs) (take left group.1 (pairs.map Prod.fst))
      (take right group.2 (pairs.map Prod.snd)) := by
  have construct := congrArg Head.construct same
  have keywords := congrArg (fun head => Head.keywordText head.keywords) same
  simp only [Head.face, Head.keywordText_bare] at construct keywords
  unfold take
  rw [construct, keywords]
  split
  · cases pairs with
    | nil =>
        simp only [List.map_nil, alike.span]
        exact .error _
    | cons body pairs =>
        rw [List.forall_mem_cons] at twins
        have alikeBody : body.IsAlike := by
          rcases ordered.1.anchored with alike | anchored
          · exact alike
          · simp [noEnd] at anchored
        simp only [List.map_cons, twins.1.isBlock, alikeBody.span]
        split
        · split
          · have chain := agree_append [body] (elseChain_twin twins.2 ordered.2)
            cases first : elseChain (pairs.map Prod.fst) <;>
              cases second : elseChain (pairs.map Prod.snd) <;>
              rw [first, second] at chain <;> exact chain
          · exact .ok (.intro [body] pairs)
        · exact .error _
  · exact .ok (.intro [] pairs)

/-- Whether a token that ends an operand stands in front of the first `::`. -/
def Shielded : List Tree → Prop
  | [] => True
  | tree :: trees =>
      Operand.isBoundary tree = true ∨ (tree.isPunct "::" = false ∧ Shielded trees)

theorem shielded_elseChain {trees chain after : List Tree}
    (taken : elseChain trees = .ok (chain, after)) : Shielded chain := by
  have word {tree : Tree} {text : String} (keyword : tree.isKeyword text = true) :
      tree.isPunct "::" = false := by
    cases tree with
    | group bracket children => rfl
    | leaf token => exact Token.isPunct_of_isKeyword keyword
  fun_induction elseChain trees generalizing chain after with
  | case1 =>
      cases taken
      trivial
  | case2 => contradiction
  | case3 tree opens next rest block =>
      cases taken
      exact .inr ⟨word opens, .inr ⟨isPunct_of_isGroup block _, trivial⟩⟩
  | case4 => contradiction
  | case5 => contradiction
  | case6 tree opens next rest noBlock isIf link middle found others last tail ih =>
      cases taken
      have boundary : Operand.isBoundary next = true := by
        cases next with
        | group bracket children => contradiction
        | leaf token =>
            have isIf : token.isReserved = true ∧ token.text = "if" := by
              simpa [Tree.isKeyword, anyToken, Token.isKeyword] using isIf
            simp [Operand.isBoundary, isKeywordIn, anyToken, isIf, Operand.boundaryKeywords]
      exact .inr ⟨word opens, .inl boundary⟩
  | case7 => contradiction
  | case8 =>
      cases taken
      trivial

theorem shielded_take {head : Head} {group : Tree} {trees body after : List Tree}
    (taken : take head group trees = .ok (body, after)) : Shielded body := by
  unfold take at taken
  split at taken
  · split at taken
    · contradiction
    · split at taken
      · rename_i block
        have noPath := isPunct_of_isGroup block "::"
        split at taken
        · split at taken
          · contradiction
          · rename_i chained
            cases taken
            exact .inr ⟨noPath, shielded_elseChain chained⟩
        · cases taken
          exact .inr ⟨noPath, trivial⟩
      · contradiction
  · cases taken
    trivial

end Body

namespace Site

/-- A sequence that both runs divide at the same places around a marker. -/
inductive Divided : (before after : List Pair) → Occurrence → Occurrence → Prop where
  | intro {before operand body after : List Pair} {group : Pair} {left right : Head}
      (nonempty : operand ≠ []) (alike : ∀ pair ∈ operand, pair.IsAlike) (clear : Clear before)
      (parsed : Head.ofGroup group.1 = .ok left) (parsedToo : Head.ofGroup group.2 = .ok right)
      (shielded : Body.Shielded (body.map Prod.fst)) :
      Divided (operand.reverse ++ before) (group :: (body ++ after))
        ⟨before.map Prod.fst, operand.map Prod.fst, left, body.map Prod.fst, after.map Prod.fst⟩
        ⟨before.map Prod.snd, operand.map Prod.snd, right, body.map Prod.snd, after.map Prod.snd⟩

theorem divide_eq_bind (site : Site) (reach : Nat) :
    site.divide reach =
      (Operand.take reach site.before site.marker).bind fun operand =>
        match site.after with
        | [] => .error (Head.missing site.marker)
        | first :: after =>
            (Head.ofGroup first).bind fun head =>
              (Body.take head first after).bind fun parts =>
                .ok ⟨site.before.drop operand.length, operand.reverse, head, parts.1, parts.2⟩ := by
  unfold divide
  cases Operand.take reach site.before site.marker with
  | error failure => rfl
  | ok operand =>
      cases site.after with
      | nil => rfl
      | cons group after =>
          simp only [Except.bind]
          cases Head.ofGroup group with
          | error failure => rfl
          | ok head =>
              simp only
              cases Body.take head group after <;> rfl

variable {before after : List Pair} {marker : Pair}

theorem divide_twin (reach : Nat) (twinsBefore : ∀ pair ∈ before, Twin pair) (twin : Twin marker)
    (twinsAfter : ∀ pair ∈ after, Twin pair) (separator : marker.1.isPunct "::" = true)
    (ordered : Ordered before (marker :: after)) :
    Agree (Divided before after)
      (divide ⟨before.map Prod.fst, marker.1, after.map Prod.fst⟩ reach)
      (divide ⟨before.map Prod.snd, marker.2, after.map Prod.snd⟩ reach) := by
  have alike := twin.isAlike_of_anyToken separator
  have noEnd {tree : Tree} (isGroup : tree.isGroup .paren = true) : tree.endsHead = false := by
    obtain ⟨bracket, children, rfl, -⟩ := eq_group_of_isGroup isGroup
    rfl
  rw [divide_eq_bind, divide_eq_bind]
  refine (Operand.take_twin reach alike.span twinsBefore (ordered.1.clear separator)).bind ?_
  rintro taken takenToo found foundToo ⟨alikeOperand, clear⟩
  rename_i operand others
  cases after with
  | nil =>
      simp only [List.map_nil, Head.missing, alike.span]
      exact .error _
  | cons group after =>
      rw [List.forall_mem_cons] at twinsAfter
      have alikeGroup : group.IsAlike := ordered.2.1.isAlike_of_path separator
      simp only [List.map_cons]
      refine (Head.ofGroup_twin twinsAfter.1 alikeGroup).bind ?_
      intro left right parsed parsedToo same
      have isParen := Head.ofGroup_isGroup parsed
      refine (Body.take_twin same twinsAfter.2 alikeGroup (noEnd isParen) ordered.2.2).bind ?_
      rintro bodyLeft bodyRight captured - ⟨body, rest⟩
      have nonempty : operand ≠ [] := by
        rintro rfl
        exact (Operand.take_eq_ok found).2 rfl
      have divided := @Divided.intro others operand.reverse body rest group left right
        (by simpa using nonempty) (by simpa using alikeOperand) clear parsed parsedToo
        (Body.shielded_take captured)
      rw [List.reverse_reverse, List.map_reverse, List.map_reverse] at divided
      have drop (side : Pair → Tree) :
          ((operand ++ others).map side).drop (operand.map side).length = others.map side := by
        rw [List.map_append, List.drop_left]
      rw [drop, drop]
      exact .ok divided

theorem resolve_twin (reach : Nat) (twinsBefore : ∀ pair ∈ before, Twin pair) (twin : Twin marker)
    (twinsAfter : ∀ pair ∈ after, Twin pair) (separator : marker.1.isPunct "::" = true)
    (ordered : Ordered before (marker :: after)) :
    Agree (Divided before after)
      (resolve ⟨before.map Prod.fst, marker.1, after.map Prod.fst⟩ reach)
      (resolve ⟨before.map Prod.snd, marker.2, after.map Prod.snd⟩ reach) := by
  have span := (twin.isAlike_of_anyToken separator).span
  have divided := divide_twin reach twinsBefore twin twinsAfter separator ordered
  unfold resolve
  simp only [span]
  cases left : divide ⟨before.map Prod.fst, marker.1, after.map Prod.fst⟩ reach <;>
    cases right : divide ⟨before.map Prod.snd, marker.2, after.map Prod.snd⟩ reach <;>
    rw [left, right] at divided
  · cases divided
    exact .error _
  · cases divided
  · cases divided
  · cases divided with
    | ok holds => exact .ok holds

end Site

end Headfirst
