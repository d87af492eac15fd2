import Headfirst.Proofs.Posts

namespace Headfirst

open Headfirst.Tree

/-! Markers and the groups that are dissolved around them.

Where invisible groups are dissolved no marker arises.  Each marker that remains has as its
siblings those of its sequence with their groups dissolved, and, if its sequence was in an
invisible group itself, what stood around that group. -/

namespace Tree

/-- The siblings before a tree, nearest first, with their invisible groups dissolved. -/
def flattenBefore (before : List Tree) : List Tree :=
  (flattenAll before.reverse).reverse

theorem flattenBefore_cons (tree : Tree) (before : List Tree) :
    flattenBefore (tree :: before) = tree.flatten.reverse ++ flattenBefore before := by
  simp [flattenBefore, flattenAll_append, flattenAll]

end Tree

namespace Frame

/-- What comes to stand in front of the innermost place, nearest first, where invisible groups
are dissolved. -/
def ahead : List Frame → List Tree
  | [] => []
  | frame :: frames =>
      if frame.bracket.delimiter = .invisible then (flattenAll frame.before).reverse ++ ahead frames
      else []

/-- What comes to stand behind the innermost place where invisible groups are dissolved. -/
def behind : List Frame → List Tree
  | [] => []
  | frame :: frames =>
      if frame.bracket.delimiter = .invisible then flattenAll frame.after ++ behind frames else []

end Frame

/-- A site up to the trivia of its marker and of what stands before it. -/
def Site.bare (site : Site) : Site :=
  ⟨site.before.map Tree.bare, site.marker.bare, site.after⟩

namespace Post

/-- The site with its siblings where invisible groups are dissolved. -/
def dissolved (post : Post) : Site where
  before := flattenBefore post.site.before ++ Frame.ahead post.frames
  marker := post.site.marker
  after := flattenAll post.site.after ++ Frame.behind post.frames

/-- Whether a marker still is one where invisible groups are dissolved. -/
def isKept (post : Post) : Bool :=
  Marker.test post.dissolved.marker post.dissolved.after.head?

end Post

namespace Tree

theorem postsAll_nil (frames : List Frame) (before : List Tree) : postsAll frames before [] = [] :=
  rfl

mutual

theorem bare_postsBelow (tree : Tree) : ∀ (frames others : List Frame)
    (before after left right : List Tree),
    (tree.postsBelow frames before after).map (·.site.bare) =
      (tree.postsBelow others left right).map (·.site.bare) := by
  cases tree with
  | leaf token => exact fun _ _ _ _ _ _ => rfl
  | group bracket children =>
      intro frames others before after left right
      rw [postsBelow, postsBelow]
      exact bare_postsAll children _ _ _ _ rfl

/-- The groups around a sequence and the trivia in front of a site do not matter to what is
found there. -/
theorem bare_postsAll (trees : List Tree) : ∀ (frames others : List Frame)
    (before left : List Tree), before.map bare = left.map bare →
    (postsAll frames before trees).map (·.site.bare) =
      (postsAll others left trees).map (·.site.bare) := by
  cases trees with
  | nil => exact fun _ _ _ _ _ => rfl
  | cons tree after =>
      intro frames others before left same
      have later := bare_postsAll after frames others (tree :: before) (tree :: left)
        (by simp [same])
      have inside := bare_postsBelow tree frames others before after left after
      rw [postsAll, postsAll, List.map_append, List.map_append, List.map_append, List.map_append,
        later, inside]
      congr 2
      split
      · simp [Site.bare, same]
      · rfl

end

theorem bare_postsAll_prepend (frames : List Frame) (before : List Tree) (leading : String)
    (trees after : List Tree) :
    (postsAll frames before (prepend leading trees ++ after)).map (·.site.bare) =
      (postsAll frames before (trees ++ after)).map (·.site.bare) := by
  cases trees with
  | nil => rfl
  | cons tree trees =>
      have own (following : Option Tree) (moved : Tree) (same : moved.bare = tree.bare) :
          Marker.test moved following = Marker.test tree following := by
        rw [← Marker.test_bare, same, Marker.test_bare]
      have inside (moved : Tree) (same : moved.bare = tree.bare) (rest : List Tree) :
          (moved.postsBelow frames before rest).map (·.site.bare) =
            (tree.postsBelow frames before rest).map (·.site.bare) := by
        cases tree with
        | leaf token =>
            cases moved with
            | leaf other => rfl
            | group bracket children => contradiction
        | group bracket children =>
            cases moved with
            | leaf other => contradiction
            | group other inner =>
                have children : inner = children := by
                  simp only [bare, withLeading, group.injEq] at same
                  exact same.2
                subst children
                exact bare_postsAll inner _ _ _ _ rfl
      rw [prepend, List.cons_append, List.cons_append, postsAll, postsAll]
      simp only [List.map_append]
      rw [own _ _ bare_withLeading, inside _ bare_withLeading,
        bare_postsAll (trees ++ after) frames frames _ (tree :: before) (by simp)]
      congr 2
      split
      · simp [Site.bare]
      · rfl

/-- What is kept of some posts, with the sites as they come to be. -/
def keptSites (posts : List Post) : List Site :=
  (posts.filter Post.isKept).map (·.dissolved.bare)

theorem keptSites_append (left right : List Post) :
    keptSites (left ++ right) = keptSites left ++ keptSites right := by
  simp [keptSites]

@[simp] theorem keptSites_nil : keptSites [] = [] := rfl

theorem keptSites_singleton (post : Post) :
    keptSites [post] = if post.isKept then [post.dissolved.bare] else [] := by
  cases kept : post.isKept <;> simp [keptSites, kept]

/-- What is a marker where invisible groups are dissolved was one before. -/
theorem test_of_dissolved {tree : Tree} {after others : List Tree}
    (isMarker : Marker.test tree (flattenAll after ++ others).head? = true) :
    Marker.test tree after.head? = true := by
  simp only [Marker.test, Bool.and_eq_true, Bool.not_eq_true'] at isMarker ⊢
  refine ⟨isMarker.1, ?_⟩
  rw [Bool.eq_false_iff]
  intro continues
  have outlives := head?_flattenAll_continuesPath continues
  have first : (flattenAll after ++ others).head? = (flattenAll after).head? := by
    cases dissolved : flattenAll after with
    | nil => simp [dissolved] at outlives
    | cons tree trees => rfl
  rw [first, outlives] at isMarker
  exact absurd isMarker.2 (by simp)

theorem keptSites_own {frames : List Frame} {before after ahead : List Tree} (tree : Tree)
    (same : ahead.map bare = (flattenBefore before ++ Frame.ahead frames).map bare) :
    (if Marker.test tree (flattenAll after ++ Frame.behind frames).head? then
        [Site.bare ⟨ahead, tree, flattenAll after ++ Frame.behind frames⟩] else []) =
      keptSites (if Marker.test tree after.head? then [⟨frames, before, tree, after⟩] else []) := by
  cases test : Marker.test tree (flattenAll after ++ Frame.behind frames).head? with
  | true =>
      rw [test_of_dissolved test, if_pos rfl, if_pos rfl, keptSites_singleton, Post.isKept,
        Post.dissolved, test, if_pos rfl, Site.bare, Site.bare, same]
  | false =>
      rw [if_neg Bool.false_ne_true]
      split
      · rw [keptSites_singleton, Post.isKept, Post.dissolved, test, if_neg Bool.false_ne_true]
      · rfl

mutual

/-- `ahead` is what stands in front of the tree once invisible groups are dissolved. -/
theorem keptSites_flatten (tree : Tree) : ∀ (frames others : List Frame)
    (before after ahead : List Tree),
    ahead.map bare = (flattenBefore before ++ Frame.ahead frames).map bare →
    (postsAll others ahead (tree.flatten ++ (flattenAll after ++ Frame.behind frames))).map
        (·.site.bare) =
      keptSites (if Marker.test tree after.head? then [⟨frames, before, tree, after⟩] else []) ++
        keptSites (tree.postsBelow frames before after) ++
        (postsAll others (tree.flatten.reverse ++ ahead)
          (flattenAll after ++ Frame.behind frames)).map (·.site.bare) := by
  cases tree with
  | leaf token =>
      intro frames others before after ahead same
      have own : (postsAll others ahead
          ([leaf token] ++ (flattenAll after ++ Frame.behind frames))).map (·.site.bare) =
            (if Marker.test (leaf token) (flattenAll after ++ Frame.behind frames).head? then
                [Site.bare ⟨ahead, leaf token, flattenAll after ++ Frame.behind frames⟩] else []) ++
              (postsAll others (leaf token :: ahead)
                (flattenAll after ++ Frame.behind frames)).map (·.site.bare) := by
        rw [List.singleton_append, postsAll, postsBelow, List.append_nil, List.map_append]
        congr 1
        split <;> rfl
      rw [flatten, own, keptSites_own _ same, postsBelow, keptSites_nil, List.append_nil]
      rfl
  | group bracket children =>
      intro frames others before after ahead same
      have inner := keptSites_flattenAll children (⟨before.reverse, bracket, after⟩ :: frames)
      rw [flatten, Marker.test_group, postsBelow]
      split
      · rename_i invisible
        have around := inner others [] ahead (by
          rw [Frame.ahead, if_pos invisible, same]
          rfl)
        rw [Frame.behind, if_pos invisible] at around
        rw [bare_postsAll_prepend, around, bare_postsAll _ others others
          ((flattenAll children).reverse ++ ahead)
          ((prepend bracket.leading (flattenAll children)).reverse ++ ahead)
          (by simp only [List.map_append, List.map_reverse, bare_prepend])]
        rfl
      · rename_i visible
        have within := inner (⟨ahead.reverse, bracket, flattenAll after ++ Frame.behind frames⟩ :: others)
          [] [] (by
            rw [Frame.ahead, if_neg visible]
            rfl)
        rw [Frame.behind, if_neg visible, List.append_nil, postsAll_nil, List.map_nil,
          List.append_nil] at within
        rw [List.singleton_append, postsAll, Marker.test_group, postsBelow, List.map_append,
          List.map_append, within]
        rfl

theorem keptSites_flattenAll (trees : List Tree) : ∀ (frames others : List Frame)
    (before ahead : List Tree),
    ahead.map bare = (flattenBefore before ++ Frame.ahead frames).map bare →
    (postsAll others ahead (flattenAll trees ++ Frame.behind frames)).map (·.site.bare) =
      keptSites (postsAll frames before trees) ++
        (postsAll others ((flattenAll trees).reverse ++ ahead) (Frame.behind frames)).map
          (·.site.bare) := by
  cases trees with
  | nil =>
      intro frames others before ahead same
      rfl
  | cons tree after =>
      intro frames others before ahead same
      have first := keptSites_flatten tree frames others before after ahead same
      have later := keptSites_flattenAll after frames others (tree :: before)
        (tree.flatten.reverse ++ ahead) (by
          rw [List.map_append, same, flattenBefore_cons, List.append_assoc, ← List.map_append])
      rw [flattenAll, List.append_assoc, first, later, postsAll, keptSites_append,
        keptSites_append, List.reverse_append]
      simp only [List.append_assoc]

end

/-- The markers that are left where invisible groups are dissolved. -/
theorem sites_posts_flattenAll (trees : List Tree) :
    (posts (flattenAll trees)).map (·.site.bare) = keptSites (posts trees) := by
  have whole := keptSites_flattenAll trees [] [] [] [] rfl
  rw [Frame.behind, List.append_nil, postsAll_nil, List.map_nil, List.append_nil] at whole
  exact whole

theorem markersAll_flattenAll_eq (trees : List Tree) :
    markersAll (flattenAll trees) = ((posts trees).filter Post.isKept).length := by
  have same := congrArg List.length (sites_posts_flattenAll trees)
  rwa [List.length_map, length_posts, keptSites, List.length_map] at same

end Tree

end Headfirst
