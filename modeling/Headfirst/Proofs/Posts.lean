import Headfirst.Proofs.Sweeps

namespace Headfirst

/-! The markers of a tree, each with the sequence it stands in and the groups around it. -/

/-- A site somewhere in a working tree, with the groups around its sequence.  The innermost
frame is the first. -/
structure Post where
  frames : List Frame
  site : Site

def Post.trees (post : Post) : List Tree :=
  Frame.fill post.frames post.site.trees

namespace Tree

mutual

/-- The markers below a tree that stands between `before`, nearest first, and `after`. -/
def postsBelow (frames : List Frame) (before after : List Tree) : Tree → List Post
  | leaf _ => []
  | group bracket children => postsAll (⟨before.reverse, bracket, after⟩ :: frames) [] children

/-- The markers of the rest of a sequence, and below it, as one meets them from the left. -/
def postsAll (frames : List Frame) (before : List Tree) : List Tree → List Post
  | [] => []
  | tree :: after =>
      (if Marker.test tree after.head? then [⟨frames, before, tree, after⟩] else []) ++
        tree.postsBelow frames before after ++ postsAll frames (tree :: before) after

end

def posts (trees : List Tree) : List Post :=
  postsAll [] [] trees

variable {frames : List Frame} {before after rest : List Tree}

mutual

theorem length_postsBelow (frames : List Frame) (before after : List Tree) :
    ∀ tree : Tree, (tree.postsBelow frames before after).length = tree.markers
  | leaf token => rfl
  | group bracket children => by
      rw [postsBelow, length_postsAll, markers]

theorem length_postsAll (frames : List Frame) (before : List Tree) :
    ∀ trees : List Tree, (postsAll frames before trees).length = markersAll trees
  | [] => rfl
  | tree :: after => by
      rw [postsAll, List.length_append, List.length_append, length_postsBelow, length_postsAll,
        markersAll]
      split <;> rfl

end

theorem length_posts (trees : List Tree) : (posts trees).length = markersAll trees :=
  length_postsAll [] [] trees

mutual

theorem postsBelow_inPlace (frames : List Frame) (before after : List Tree) :
    ∀ tree : Tree, ∀ post ∈ tree.postsBelow frames before after,
      post.trees = Frame.fill frames (before.reverse ++ tree :: after) ∧
        Marker.test post.site.marker post.site.after.head? = true
  | leaf token => by simp [postsBelow]
  | group bracket children => by
      intro post member
      rw [postsBelow] at member
      exact postsAll_inPlace _ _ children post member

/-- Each of the markers is one, in its place. -/
theorem postsAll_inPlace (frames : List Frame) (before : List Tree) :
    ∀ rest : List Tree, ∀ post ∈ postsAll frames before rest,
      post.trees = Frame.fill frames (before.reverse ++ rest) ∧
        Marker.test post.site.marker post.site.after.head? = true
  | [] => by simp [postsAll]
  | tree :: after => by
      intro post member
      rw [postsAll, List.mem_append, List.mem_append] at member
      rcases member with (here | inside) | later
      · split at here
        · rename_i isMarker
          cases List.mem_singleton.mp here
          exact ⟨rfl, isMarker⟩
        · contradiction
      · exact postsBelow_inPlace frames before after tree post inside
      · have place := postsAll_inPlace frames (tree :: before) after post later
        rwa [List.reverse_cons, List.append_assoc, List.singleton_append] at place

end

/-! The markers of a sequence apart from those below it. -/

/-- The markers of the rest of a sequence itself. -/
def sites (before : List Tree) : List Tree → List Site
  | [] => []
  | tree :: after =>
      (if Marker.test tree after.head? then [⟨before, tree, after⟩] else []) ++
        sites (tree :: before) after

/-- The markers in the groups of the rest of a sequence. -/
def postsInside (frames : List Frame) (before : List Tree) : List Tree → List Post
  | [] => []
  | tree :: after =>
      tree.postsBelow frames before after ++ postsInside frames (tree :: before) after

theorem postsAll_perm (frames : List Frame) (before rest : List Tree) :
    (postsAll frames before rest).Perm
      ((sites before rest).map (Post.mk frames) ++ postsInside frames before rest) := by
  induction rest generalizing before with
  | nil => exact .nil
  | cons tree after ih =>
      have own : (if Marker.test tree after.head? then [Site.mk before tree after] else []).map
          (Post.mk frames) =
            if Marker.test tree after.head? then [⟨frames, before, tree, after⟩] else [] := by
        split <;> rfl
      rw [postsAll, sites, postsInside, List.map_append, own, List.append_assoc, List.append_assoc]
      refine .append_left _ ((List.Perm.append_left _ (ih _)).trans ?_)
      rw [← List.append_assoc, ← List.append_assoc]
      exact .append_right _ List.perm_append_comm

end Tree

end Headfirst
