import Headfirst.Proofs.MarkerCount

namespace Headfirst

open Headfirst.Tree

/-! What the reader of a head sees of the trees in it: tokens without their trivia, and of a
group its brackets.  Heads that look the same are read alike, up to the error. -/

namespace Token

variable (token : Token)

@[simp] theorem kind_bare : token.bare.kind = token.kind := rfl

@[simp] theorem text_bare : token.bare.text = token.text := rfl

@[simp] theorem isReserved_bare : token.bare.isReserved = token.isReserved := rfl

end Token

namespace Tree

def face (tree : Tree) : Tree :=
  tree.bare.shell

variable {tree : Tree}

@[simp] theorem face_leaf (token : Token) : (leaf token).face = leaf token.bare := rfl

@[simp] theorem face_group (bracket : Bracket) (children : List Tree) :
    (group bracket children).face = group { bracket with leading := "" } [] := rfl

@[simp] theorem span_bare (token : Token) : (leaf token.bare).span = (leaf token).span := rfl

@[simp] theorem face_withLeading (leading : String) :
    (tree.withLeading leading).face = tree.face := by
  simp [face]

@[simp] theorem face_separated : tree.separated.face = tree.face := by
  simp [face]

@[simp] theorem face_bare : tree.bare.face = tree.face :=
  face_withLeading ""

theorem test_face (tree : Tree) (next : Option Tree) :
    Marker.test tree.face (next.map face) = Marker.test tree next := by
  have seen := test_shell tree.bare (next.map bare)
  rwa [Option.map_map, Marker.test_bare] at seen

theorem anyToken_face {test : Token → Bool}
    (bare : ∀ token : Token, test token.bare = test token) :
    tree.face.anyToken test = tree.anyToken test := by
  cases tree with
  | leaf token => exact bare token
  | group bracket children => rfl

@[simp] theorem isPunct_face (text : String) : tree.face.isPunct text = tree.isPunct text :=
  anyToken_face fun _ => rfl

@[simp] theorem isLifetime_face : tree.face.isLifetime = tree.isLifetime :=
  anyToken_face fun _ => rfl

@[simp] theorem isGroup_face (delimiter : Delimiter) :
    tree.face.isGroup delimiter = tree.isGroup delimiter := by
  cases tree <;> rfl

@[simp] theorem span_face : tree.face.span = tree.span := by
  cases tree <;> rfl

@[simp] theorem loc_face : tree.face.loc = tree.loc := by
  cases tree <;> rfl

theorem firstLoc_face (trees : List Tree) : firstLoc (trees.map face) = firstLoc trees := by
  have known : (fun tree : Tree => decide (0 < tree.loc.line)) ∘ face =
      fun tree => decide (0 < tree.loc.line) := by
    funext tree
    simp
  unfold firstLoc
  rw [List.find?_map, known]
  cases trees.find? (0 < ·.loc.line) <;> simp

end Tree

namespace Head

def face (head : Head) : Head where
  construct := head.construct
  label := head.label.map Tree.face
  keywords := head.keywords.map Token.bare
  argument := head.argument.map Tree.face
  pattern := head.pattern.map Tree.face
  link := head.link.map Token.bare

@[simp] theorem keywordText_bare (keywords : List Token) :
    keywordText (keywords.map Token.bare) = keywordText keywords := by
  simp [keywordText, Function.comp_def, Token.bare]

@[simp] theorem describe_face (tree : Tree) : describe tree.face = describe tree := by
  cases tree <;> rfl

theorem map_ite {α β : Type} {condition : Prop} [Decidable condition] (f : α → β)
    (left right : Except Failure α) :
    (if condition then left else right).map f =
      if condition then left.map f else right.map f := by
  split <;> rfl

variable (head : Head) (label rest : List Tree) (keyword : Token)

theorem complete_face (what : String) :
    complete what head.face (rest.map Tree.face) = (complete what head rest).map face := by
  cases rest with
  | nil => rfl
  | cons tree rest => simp [complete, stray, Except.map]

theorem binding_face (link : String) :
    binding head.face link (rest.map Tree.face) = (binding head link rest).map face := by
  have words : keywordText head.face.keywords = keywordText head.keywords := keywordText_bare _
  have last : head.face.keywords.getLast? = head.keywords.getLast?.map Token.bare :=
    List.getLast?_map
  unfold binding
  simp only [List.getLast?_map, ← List.map_dropLast, words, last]
  cases rest.getLast? with
  | none => cases head.keywords.getLast? <;> rfl
  | some last =>
      cases last with
      | group bracket children => rfl
      | leaf token =>
          simp only [Option.map_some, face_leaf, List.isEmpty_map, map_ite]
          rfl

theorem condition_face (plain withLet : Construct) :
    condition plain withLet (label.map Tree.face) keyword.bare (rest.map Tree.face) =
      (condition plain withLet label keyword rest).map face := by
  cases rest with
  | nil => rfl
  | cons tree rest =>
      cases tree with
      | group bracket children => rfl
      | leaf second =>
          simp only [condition, List.map_cons, face_leaf, map_ite]
          congr 1
          exact binding_face { construct := withLet, label, keywords := [keyword, second] } rest "="

theorem modified_face (construct : Construct) (what modifier : String) :
    modified construct what modifier (label.map Tree.face) keyword.bare (rest.map Tree.face) =
      (modified construct what modifier label keyword rest).map face := by
  cases rest with
  | nil => rfl
  | cons tree rest =>
      cases tree with
      | group bracket children => rfl
      | leaf second =>
          simp only [modified, List.map_cons, face_leaf, map_ite]
          congr 1
          exact complete_face { construct, label, keywords := [keyword, second] } rest what

theorem leaving_face :
    leaving (label.map Tree.face) keyword.bare (rest.map Tree.face) =
      (leaving label keyword rest).map face := by
  cases rest with
  | nil => rfl
  | cons tree rest =>
      simp only [leaving, List.map_cons, isLifetime_face, map_ite]
      congr 1
      · exact complete_face
          { construct := .breakOut, label, keywords := [keyword], argument := [tree] } rest "break"
      · simp [stray, Except.map]

theorem ofKeyword_face :
    ofKeyword (label.map Tree.face) keyword.bare (rest.map Tree.face) =
      (ofKeyword label keyword rest).map face := by
  have bare (construct : Construct) (what : String) :=
    complete_face { construct, label, keywords := [keyword] } rest what
  have bound (construct : Construct) (link : String) :=
    binding_face { construct, label, keywords := [keyword] } rest link
  unfold ofKeyword
  simp only [map_ite, Token.isReserved_bare, Token.kind_bare, Token.text_bare]
  congr 1
  · split
    case h_8 | h_9 => exact condition_face ..
    case h_10 | h_11 => exact bound ..
    case h_12 => exact modified_face ..
    case h_13 => exact leaving_face ..
    case h_14 => rfl
    all_goals exact bare ..
  · congr 1
    split
    case h_1 | h_2 => exact modified_face ..
    case h_6 => rfl
    all_goals exact bare ..

theorem ofLabelled_face :
    ofLabelled (label.map Tree.face) (rest.map Tree.face) = (ofLabelled label rest).map face := by
  cases rest with
  | nil => rfl
  | cons tree rest =>
      cases tree with
      | group bracket children => rfl
      | leaf keyword =>
          simp only [ofLabelled, List.map_cons, face_leaf, ofKeyword_face]
          cases ofKeyword label keyword rest with
          | error failure => rfl
          | ok head =>
              simp only [Except.map, List.isEmpty_map]
              split <;> simp_all [face]

theorem ofTrees_face (group : Tree) (children : List Tree) :
    ofTrees group.face (children.map Tree.face) = (ofTrees group children).map face := by
  cases children with
  | nil => simp [ofTrees, Except.map]
  | cons first rest =>
      have unlabelled := ofLabelled_face [] (first :: rest)
      cases rest with
      | nil =>
          simp only [ofTrees, List.map_cons, List.map_nil, isLifetime_face, map_ite]
          congr 1
          simp [Except.map]
      | cons colon rest =>
          have labelled := ofLabelled_face [first, colon] rest
          simp only [ofTrees, List.map_cons, isLifetime_face, isPunct_face, map_ite]
          congr 1
          congr 1
          simp [Except.map]

/-- Heads read alike. -/
theorem ofTrees_eq_of_face {left right : Tree} {leftTrees rightTrees : List Tree}
    (same : left.face = right.face) (sameAll : leftTrees.map Tree.face = rightTrees.map Tree.face) :
    (ofTrees left leftTrees).map face = (ofTrees right rightTrees).map face := by
  rw [← ofTrees_face, ← ofTrees_face, same, sameAll]

end Head

end Headfirst
