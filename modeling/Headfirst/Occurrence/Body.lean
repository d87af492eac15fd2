import Headfirst.Occurrence.Head

namespace Headfirst

/-! The trees after a head that belong to its construct: a block, and for conditions the
`else` chain after it. -/

namespace Body

def isElse : Tree → Bool :=
  Tree.isKeyword "else"

def isBlock : Tree → Bool :=
  Tree.isGroup .brace

/-- A condition with the block it runs up to, and what follows.  The condition has at
least one tree. -/
def guardedBlock (trees : List Tree) : Option (List Tree × List Tree) :=
  match trees.takeWhile (!isBlock ·), trees.dropWhile (!isBlock ·) with
  | first :: condition, block :: after => some (first :: condition ++ [block], after)
  | _, _ => none

theorem guardedBlock_append {trees link after : List Tree}
    (found : guardedBlock trees = some (link, after)) : link ++ after = trees := by
  have whole := List.takeWhile_append_dropWhile (p := (!isBlock ·)) (l := trees)
  unfold guardedBlock at found
  split at found
  · rename_i first condition block rest taken dropped
    simp only [Option.some.injEq, Prod.mk.injEq] at found
    obtain ⟨rfl, rfl⟩ := found
    rw [← whole, taken, dropped]
    simp
  · contradiction

theorem length_guardedBlock {trees link after : List Tree}
    (found : guardedBlock trees = some (link, after)) : after.length ≤ trees.length := by
  have whole := congrArg List.length (guardedBlock_append found)
  simp only [List.length_append] at whole
  omega

/-- The links `else { .. }` and `else if <condition> { .. }` at the front of a sequence,
and what follows them.  A link without `if` is the last one. -/
def elseChain : List Tree → Except Failure (List Tree × List Tree)
  | [] => .ok ([], [])
  | tree :: rest =>
      if isElse tree then
        match rest with
        | [] => .error ⟨.danglingElse, tree.span, none⟩
        | next :: rest =>
            if isBlock next then .ok ([tree, next], rest)
            else if next.isKeyword "if" then
              match _found : guardedBlock rest with
              | none => .error ⟨.incompleteElseIf, next.span, none⟩
              | some (link, after) =>
                  match elseChain after with
                  | .error failure => .error failure
                  | .ok (chain, after) => .ok (tree :: next :: link ++ chain, after)
            else .error ⟨.danglingElse, next.span, none⟩
      else .ok ([], tree :: rest)
termination_by trees => trees.length
decreasing_by
  have := length_guardedBlock _found
  simp only [List.length_cons]
  omega

def take (head : Head) (group : Tree) (after : List Tree) :
    Except Failure (List Tree × List Tree) :=
  if head.construct.takesBody then
    match after with
    | [] => .error ⟨.noBody (Head.keywordText head.keywords), group.span, none⟩
    | body :: rest =>
        if isBlock body then
          if head.construct.takesElse then
            match elseChain rest with
            | .error failure => .error failure
            | .ok (chain, rest) => .ok (body :: chain, rest)
          else .ok ([body], rest)
        else .error ⟨.noBody (Head.keywordText head.keywords), body.span, none⟩
  else .ok ([], after)

theorem elseChain_append {trees chain after : List Tree}
    (taken : elseChain trees = .ok (chain, after)) : chain ++ after = trees := by
  fun_induction elseChain trees generalizing chain after with
  | case1 => simp_all
  | case2 => contradiction
  | case3 =>
      cases taken
      rfl
  | case4 => contradiction
  | case5 => contradiction
  | case6 tree opens next rest notBlock isIf link middle found chain last tail ih =>
      cases taken
      rw [← guardedBlock_append found, ← ih tail]
      simp
  | case7 => contradiction
  | case8 => simp_all

theorem take_append {head : Head} {group : Tree} {trees body after : List Tree}
    (taken : take head group trees = .ok (body, after)) : body ++ after = trees := by
  unfold take at taken
  split at taken
  · split at taken
    · contradiction
    · split at taken
      · split at taken
        · split at taken
          · contradiction
          · rename_i chain
            cases taken
            simpa using elseChain_append chain
        · cases taken
          rfl
      · contradiction
  · cases taken
    rfl

end Body

end Headfirst
