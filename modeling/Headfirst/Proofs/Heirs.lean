import Headfirst.Proofs.Flattening
import Headfirst.Proofs.Nodes

namespace Headfirst

open Headfirst.Tree

/-! What remains of a tree whose invisible groups are dissolved.

All other nodes remain, in the same order, and lie within each other as they did.  The trivia of a
dissolved group goes to its heir, the first tree that remains of it, and is lost where there is
none. -/

namespace Tree

@[simp] theorem withLeading_withLeading (leading other : String) (tree : Tree) :
    (tree.withLeading leading).withLeading other = tree.withLeading other := by
  cases tree <;> rfl

@[simp] theorem leading_shell (tree : Tree) : tree.shell.leading = tree.leading := by
  cases tree <;> rfl

@[simp] theorem shell_withLeading (leading : String) (tree : Tree) :
    (tree.withLeading leading).shell = tree.shell.withLeading leading := by
  cases tree <;> rfl

end Tree

namespace Node

/-- Of some nodes, those that are left where invisible groups are dissolved. -/
def remaining (nodes : List Node) : List Node :=
  nodes.filter (!·.tree.isInvisible)

/-- The path of the first node that remains of the group at `path`.  An outer node is listed in
front of those below it, so this is the first tree that remains. -/
def heir? (nodes : List Node) (path : List Nat) : Option (List Nat) :=
  ((remaining nodes).find? (path.isPrefixOf ·.path)).map Node.path

/-- The dissolved groups whose heir is the node at `path`, an outer one in front of an inner one. -/
def testators (nodes : List Node) (path : List Nat) : List Node :=
  nodes.filter fun group => group.tree.isInvisible && heir? nodes group.path == some path

/-- The trivia that comes to the node at `path`. -/
def inherited (nodes : List Node) (path : List Nat) : String :=
  String.join ((testators nodes path).map (·.tree.leading))

/-- A node that remains: it is moved, and has what it inherits in front of its own trivia. -/
def settled (move : List Nat → List Nat) (nodes : List Node) (node : Node) : Node where
  path := move node.path
  tree := node.tree.shell.withLeading (inherited nodes node.path ++ node.tree.leading)

/-- The others are what remains of some nodes: they come in the same order and lie within each other
as those did. -/
structure Settles (move : List Nat → List Nat) (nodes others : List Node) : Prop where
  same : others.map shell = (remaining nodes).map (settled move nodes)
  nested : ∀ outer ∈ remaining nodes, ∀ inner ∈ remaining nodes,
    outer.path <+: inner.path ↔ move outer.path <+: move inner.path

variable {nodes others left right : List Node} {move : List Nat → List Nat} {path : List Nat}
  {tree result : Tree}

theorem mem_remaining {node : Node} :
    node ∈ remaining nodes ↔ node ∈ nodes ∧ node.tree.isInvisible = false := by
  simp [remaining]

theorem mem_of_heir? {group heir : List Nat} (found : heir? nodes group = some heir) :
    ∃ node ∈ remaining nodes, node.path = heir := by
  obtain ⟨node, first, same⟩ := Option.map_eq_some_iff.mp found
  exact ⟨node, List.mem_of_find?_eq_some first, same⟩

/-- Nobody inherits at a path where no node remains. -/
theorem inherited_eq_empty (nobody : ∀ node ∈ remaining nodes, node.path ≠ path) :
    inherited nodes path = "" := by
  have none : testators nodes path = [] := by
    rw [testators, List.filter_eq_nil_iff]
    intro group member isHeir
    simp only [Bool.and_eq_true, beq_iff_eq] at isHeir
    obtain ⟨node, remains, same⟩ := mem_of_heir? isHeir.2
    exact nobody node remains same
  rw [inherited, none]
  rfl

/-! One level further out. -/

theorem remaining_map_under (index : Nat) (nodes : List Node) :
    remaining (nodes.map (under index)) = (remaining nodes).map (under index) := by
  rw [remaining, List.filter_map]
  rfl

theorem heir?_map_under (index : Nat) (nodes : List Node) (path : List Nat) :
    heir? (nodes.map (under index)) (index :: path) =
      (heir? nodes path).map (index :: ·) := by
  have within : ((index :: path).isPrefixOf ·.path) ∘ under index =
      fun node : Node => path.isPrefixOf node.path := by
    funext node
    simp [under]
  rw [heir?, remaining_map_under, List.find?_map, within, heir?, Option.map_map, Option.map_map]
  rfl

theorem testators_map_under (index : Nat) (nodes : List Node) (path : List Nat) :
    testators (nodes.map (under index)) (index :: path) =
      (testators nodes path).map (under index) := by
  rw [testators, List.filter_map, testators]
  congr 2
  funext group
  have found := heir?_map_under index nodes group.path
  simp only [Function.comp_apply, under, found]
  cases heir? nodes group.path <;> simp

theorem inherited_map_under (index : Nat) (nodes : List Node) (path : List Nat) :
    inherited (nodes.map (under index)) (index :: path) = inherited nodes path := by
  rw [inherited, testators_map_under, List.map_map]
  rfl

/-! Nodes side by side. -/

theorem remaining_append (left right : List Node) :
    remaining (left ++ right) = remaining left ++ remaining right :=
  List.filter_append ..

theorem find?_eq_none_of_apart {group : List Nat}
    (apart : ∀ node ∈ nodes, ¬ group <+: node.path) :
    (remaining nodes).find? (group.isPrefixOf ·.path) = none := by
  rw [List.find?_eq_none]
  intro node member within
  exact apart node (mem_remaining.mp member).1 (List.isPrefixOf_iff_prefix.mp within)

theorem testators_append (apart : Apart left right) (path : List Nat) :
    testators (left ++ right) path = testators left path ++ testators right path := by
  have inLeft : ∀ group ∈ left, heir? (left ++ right) group.path = heir? left group.path := by
    intro group member
    have none := find?_eq_none_of_apart fun node other => (apart group member node other).1
    rw [heir?, remaining_append, List.find?_append, none, Option.or_none, heir?]
  have inRight : ∀ group ∈ right, heir? (left ++ right) group.path = heir? right group.path := by
    intro group member
    have none := find?_eq_none_of_apart fun node other => (apart node other group member).2
    rw [heir?, remaining_append, List.find?_append, none, Option.none_or, heir?]
  rw [testators, List.filter_append]
  congr 1
  · exact List.filter_congr fun group member => by rw [inLeft group member]
  · exact List.filter_congr fun group member => by rw [inRight group member]

theorem inherited_append (apart : Apart left right) (path : List Nat) :
    inherited (left ++ right) path = inherited left path ++ inherited right path := by
  rw [inherited, testators_append apart, List.map_append, String.join_append, inherited, inherited]

/-- A node inherits nothing from groups beside it. -/
theorem inherited_of_apart (apart : Apart left right) {node : Node}
    (remains : node ∈ remaining left) : inherited right node.path = "" := by
  refine inherited_eq_empty fun other there same => ?_
  exact (apart node (mem_remaining.mp remains).1 other (mem_remaining.mp there).1).1
    (same ▸ List.prefix_rfl)

/-! Nodes below a root. -/

theorem heir?_cons_of_ne_nil (root : Tree) {group : List Nat} (inner : group ≠ []) :
    heir? (⟨[], root⟩ :: nodes) group = heir? nodes group := by
  have outside : group.isPrefixOf [] = false := Bool.eq_false_iff.mpr (by simpa using inner)
  simp only [heir?, remaining, List.filter_cons]
  split
  · rw [List.find?_cons, outside]
  · rfl

theorem heir?_root (invisible : tree.isInvisible = true) :
    heir? (⟨[], tree⟩ :: nodes) [] = (remaining nodes).head?.map Node.path := by
  rw [heir?, remaining, List.filter_cons_of_neg (by simp [invisible]), ← remaining]
  cases remaining nodes <;> rfl

theorem inherited_cons (below : ∀ node ∈ nodes, node.path ≠ []) (path : List Nat) :
    inherited (⟨[], tree⟩ :: nodes) path =
      (if tree.isInvisible = true ∧ heir? (⟨[], tree⟩ :: nodes) [] = some path then tree.leading
        else "") ++ inherited nodes path := by
  have others : (nodes.filter fun group => group.tree.isInvisible &&
      heir? (⟨[], tree⟩ :: nodes) group.path == some path) = testators nodes path :=
    List.filter_congr fun group member => by rw [heir?_cons_of_ne_nil tree (below group member)]
  rw [inherited, testators, List.filter_cons, others, inherited]
  simp only [Bool.and_eq_true, beq_iff_eq]
  split
  · rw [List.map_cons, String.join_cons]
  · rw [String.empty_append]

/-- What a root that is dissolved hands on goes to the first node that remains. -/
theorem inherited_root {heir : Node} {rest : List Node} (invisible : tree.isInvisible = true)
    (below : ∀ node ∈ nodes, node.path ≠ []) (distinct : (nodes.map Node.path).Nodup)
    (left : remaining nodes = heir :: rest) :
    inherited (⟨[], tree⟩ :: nodes) heir.path = tree.leading ++ inherited nodes heir.path ∧
      ∀ node ∈ rest, inherited (⟨[], tree⟩ :: nodes) node.path = inherited nodes node.path := by
  have inherits := @inherited_cons nodes tree below
  rw [heir?_root invisible, left] at inherits
  refine ⟨by simp [inherits, invisible], fun node member => ?_⟩
  have apart : ((remaining nodes).map Node.path).Nodup :=
    distinct.sublist (List.filter_sublist.map _)
  rw [left, List.map_cons, List.nodup_cons] at apart
  have other : heir.path ≠ node.path := fun same => apart.1 (same ▸ List.mem_map_of_mem member)
  simp [inherits, invisible, other]

/-! Moves. -/

/-- One move for some nodes, and another one for nodes beside them. -/
def either (nodes : List Node) (move other : List Nat → List Nat) (path : List Nat) : List Nat :=
  if path ∈ nodes.map Node.path then move path else other path

/-- A move of the nodes below a root that stays. -/
def rooted (move : List Nat → List Nat) (path : List Nat) : List Nat :=
  if path = [] then [] else move path

theorem either_left {other : List Nat → List Nat} {node : Node} (member : node ∈ nodes) :
    either nodes move other node.path = move node.path :=
  if_pos (List.mem_map_of_mem member)

theorem either_right {other : List Nat → List Nat} (apart : Apart left right) {node : Node}
    (member : node ∈ right) : either left move other node.path = other node.path := by
  refine if_neg fun among => ?_
  obtain ⟨beside, here, same⟩ := List.mem_map.mp among
  exact (apart beside here node member).1 (same ▸ List.prefix_rfl)

namespace Settles

theorem nil (move : List Nat → List Nat) : Settles move [] [] :=
  ⟨rfl, by simp [remaining]⟩

/-- Where a node that remains has come to. -/
theorem exists_other (settles : Settles move nodes others) {node : Node}
    (remains : node ∈ remaining nodes) : ∃ other ∈ others, other.path = move node.path := by
  have member : settled move nodes node ∈ others.map shell := by
    rw [settles.same]
    exact List.mem_map_of_mem remains
  obtain ⟨other, among, same⟩ := List.mem_map.mp member
  exact ⟨other, among, congrArg Node.path same⟩

theorem under_left (settles : Settles move nodes others) (index : Nat) :
    Settles (fun path => move path.tail) (nodes.map (under index)) others where
  same := by
    rw [settles.same, remaining_map_under, List.map_map]
    refine List.map_congr_left fun node member => ?_
    simp [settled, under, inherited_map_under]
  nested := by
    rw [remaining_map_under]
    intro outer outside inner inside
    obtain ⟨outer, here, rfl⟩ := List.mem_map.mp outside
    obtain ⟨inner, there, rfl⟩ := List.mem_map.mp inside
    simp [under, settles.nested outer here inner there]

theorem under_right (settles : Settles move nodes others) (index : Nat) :
    Settles (index :: move ·) nodes (others.map (under index)) where
  same := by
    have commutes : (others.map (under index)).map shell =
        (others.map shell).map (under index) := by
      rw [List.map_map, List.map_map]
      rfl
    rw [commutes, settles.same, List.map_map]
    rfl
  nested := by
    intro outer here inner there
    rw [settles.nested outer here inner there, List.cons_prefix_cons]
    simp

/-- Nodes side by side that come to be side by side. -/
theorem append {move' : List Nat → List Nat} {nodes' others' : List Node}
    (first : Settles move nodes others) (second : Settles move' nodes' others')
    (apart : Apart nodes nodes') (apart' : Apart others others') :
    Settles (either nodes move move') (nodes ++ nodes') (others ++ others') := by
  have inFirst : ∀ node ∈ remaining nodes, either nodes move move' node.path = move node.path :=
    fun node remains => either_left (mem_remaining.mp remains).1
  have inSecond : ∀ node ∈ remaining nodes', either nodes move move' node.path = move' node.path :=
    fun node remains => either_right apart (mem_remaining.mp remains).1
  refine ⟨?_, ?_⟩
  · rw [List.map_append, first.same, second.same, remaining_append, List.map_append]
    congr 1
    · refine List.map_congr_left fun node remains => ?_
      simp [settled, inFirst node remains, inherited_append apart,
        inherited_of_apart apart remains]
    · refine List.map_congr_left fun node remains => ?_
      simp [settled, inSecond node remains, inherited_append apart,
        inherited_of_apart apart.symm remains]
  · have parted : ∀ node ∈ remaining nodes, ∀ other ∈ remaining nodes',
        ¬ move node.path <+: move' other.path ∧ ¬ move' other.path <+: move node.path := by
      intro node here other there
      obtain ⟨left, member, goes⟩ := first.exists_other here
      obtain ⟨right, member', goes'⟩ := second.exists_other there
      rw [← goes, ← goes']
      exact apart' left member right member'
    intro outer outside inner inside
    rw [remaining_append, List.mem_append] at outside inside
    rcases outside with here | here <;> rcases inside with there | there
    · rw [inFirst outer here, inFirst inner there, first.nested outer here inner there]
    · rw [inFirst outer here, inSecond inner there]
      exact iff_of_false (apart outer (mem_remaining.mp here).1 inner (mem_remaining.mp there).1).1
        (parted outer here inner there).1
    · rw [inSecond outer here, inFirst inner there]
      exact iff_of_false (apart inner (mem_remaining.mp there).1 outer (mem_remaining.mp here).1).2
        (parted inner there outer here).2
    · rw [inSecond outer here, inSecond inner there, second.nested outer here inner there]

/-- Nodes below a root that remains. -/
theorem below_visible (settles : Settles move nodes others)
    (below : ∀ node ∈ nodes, node.path ≠ []) (below' : ∀ node ∈ others, node.path ≠ [])
    (visible : tree.isInvisible = false) (same : result.shell = tree.shell) :
    Settles (rooted move) (⟨[], tree⟩ :: nodes) (⟨[], result⟩ :: others) := by
  have remains : remaining (⟨[], tree⟩ :: nodes) = ⟨[], tree⟩ :: remaining nodes :=
    List.filter_cons_of_pos (by simp [visible])
  have moved : ∀ node ∈ remaining nodes, rooted move node.path = move node.path :=
    fun node member => if_neg (below node (mem_remaining.mp member).1)
  refine ⟨?_, ?_⟩
  · have inherits (path : List Nat) :
        inherited (⟨[], tree⟩ :: nodes) path = inherited nodes path := by
      simp [inherited_cons below, visible]
    have nothing : inherited (⟨[], tree⟩ :: nodes) [] = "" := by
      rw [inherits]
      exact inherited_eq_empty fun node member => below node (mem_remaining.mp member).1
    have root : (⟨[], result⟩ : Node).shell =
        settled (rooted move) (⟨[], tree⟩ :: nodes) ⟨[], tree⟩ := by
      have own := withLeading_leading tree.shell
      rw [leading_shell] at own
      simp [settled, nothing, own, Node.shell, same, rooted]
    rw [List.map_cons, settles.same, remains, List.map_cons, root]
    congr 1
    refine List.map_congr_left fun node member => ?_
    simp [settled, moved node member, inherits]
  · intro outer outside inner inside
    rw [remains, List.mem_cons] at outside inside
    rcases outside with rfl | here
    · simp [rooted]
    · have outermost := below outer (mem_remaining.mp here).1
      obtain ⟨other, member, goes⟩ := settles.exists_other here
      rcases inside with rfl | there
      · rw [moved outer here, ← goes]
        exact iff_of_false (by simpa using outermost) (by simpa [rooted] using below' other member)
      · rw [moved outer here, moved inner there, settles.nested outer here inner there]

/-- Nodes below a root that is dissolved. -/
theorem below_invisible {start : Nat} {trees : List Tree}
    (settles : Settles move nodes (nodesAll start trees))
    (below : ∀ node ∈ nodes, node.path ≠ []) (distinct : (nodes.map Node.path).Nodup)
    (invisible : tree.isInvisible = true) :
    Settles move (⟨[], tree⟩ :: nodes) (nodesAll start (prepend tree.leading trees)) := by
  have remains : remaining (⟨[], tree⟩ :: nodes) = remaining nodes :=
    List.filter_cons_of_neg (by simp [invisible])
  refine ⟨?_, by rw [remains]; exact settles.nested⟩
  have same := settles.same
  rw [remains]
  cases trees with
  | nil =>
      have none : remaining nodes = [] := List.map_eq_nil_iff.mp same.symm
      rw [none]
      rfl
  | cons first rest =>
      cases left : remaining nodes with
      | nil =>
          rw [left, nodesAll_cons] at same
          contradiction
      | cons heir others =>
          obtain ⟨handed, kept⟩ := inherited_root invisible below distinct left
          rw [left, nodesAll_cons, List.map_cons, List.map_cons, List.cons.injEq] at same
          obtain ⟨same, later⟩ := same
          rw [prepend, nodesAll_cons, nodesBelow_withLeading, List.map_cons, List.map_cons, later]
          congr 1
          · -- What comes from the root is in front of what comes from the groups below it.
            have place : [start] = move heir.path := congrArg Node.path same
            have own : first.shell = (settled move nodes heir).tree := congrArg Node.tree same
            have trivia : first.leading = inherited nodes heir.path ++ heir.tree.leading := by
              rw [← leading_shell, own, settled, leading_withLeading]
            simp only [Node.shell, settled, handed, shell_withLeading, own, trivia,
              withLeading_withLeading, ← place, String.append_assoc]
          · refine List.map_congr_left fun node member => ?_
            rw [settled, settled, kept node member]

end Settles

end Node

namespace Tree

open Node

mutual

theorem exists_settles_flatten : ∀ (tree : Tree) (start : Nat),
    ∃ move, Settles move tree.nodes (nodesAll start tree.flatten)
  | leaf token, start => by
      have settles := (Settles.nil id).below_visible (by simp) (by simp)
        (show (leaf token).isInvisible = false from rfl) rfl
      exact ⟨_, settles.under_right start⟩
  | group bracket children, start => by
      rw [nodes, flatten]
      split
      · rename_i dissolves
        have invisible : (group bracket children).isInvisible = true := by
          simp [isInvisible, isGroup, dissolves]
        obtain ⟨move, settles⟩ := exists_settles_flattenAll children 0 start
        exact ⟨move, settles.below_invisible path_ne_nil (nodup_nodesAll children 0) invisible⟩
      · rename_i remains
        have visible : (group bracket children).isInvisible = false := by
          simp [isInvisible, isGroup, remains]
        have same : (group bracket (flattenAll children)).shell = (group bracket children).shell :=
          rfl
        obtain ⟨move, settles⟩ := exists_settles_flattenAll children 0 0
        have whole := settles.below_visible path_ne_nil path_ne_nil visible same
        rw [nodesAll, nodesAll, List.append_nil, nodes]
        exact ⟨_, whole.under_right start⟩

/-- Whatever indices the first tree has before and after. -/
theorem exists_settles_flattenAll : ∀ (trees : List Tree) (index start : Nat),
    ∃ move, Settles move (nodesAll index trees) (nodesAll start (flattenAll trees))
  | [], index, start => ⟨id, .nil id⟩
  | tree :: trees, index, start => by
      obtain ⟨own, first⟩ := exists_settles_flatten tree start
      obtain ⟨rest, later⟩ := exists_settles_flattenAll trees (index + 1)
        (start + tree.flatten.length)
      rw [nodesAll, flattenAll, nodesAll_append]
      have apart := @apart_nodesAll index (index + 1) [tree] trees (Nat.le_refl _)
      rw [nodesAll, nodesAll, List.append_nil] at apart
      exact ⟨_, (first.under_left index).append later apart (apart_nodesAll (Nat.le_refl _))⟩

end

/-! The whole tree. -/

theorem remaining_nodes_eq_nil_iff (tree : Tree) :
    remaining tree.nodes = [] ↔ tree.flatten = [] := by
  obtain ⟨move, settles⟩ := exists_settles_flatten tree 0
  have same := settles.same
  constructor
  · intro none
    rw [none, List.map_nil, List.map_eq_nil_iff] at same
    cases left : tree.flatten with
    | nil => rfl
    | cons first rest =>
        rw [left, nodesAll_cons] at same
        contradiction
  · intro none
    rw [none] at same
    exact List.map_eq_nil_iff.mp same.symm

/-- A group has no heir exactly if no tree remains of it. -/
theorem heir?_eq_none_iff {tree : Tree} {group : Node} (member : group ∈ tree.nodesBelow) :
    heir? tree.nodesBelow group.path = none ↔ group.tree.flatten = [] := by
  obtain ⟨inner, found⟩ := mem_nodesBelow.mp member
  have within (rest : List Nat) :
      at? (group.path ++ rest) tree = at? rest group.tree := by
    rw [at?_append, found, Option.bind_some]
  rw [← remaining_nodes_eq_nil_iff, heir?, Option.map_eq_none_iff, List.find?_eq_none]
  constructor
  · intro none
    refine List.eq_nil_iff_forall_not_mem.mpr fun node remains => ?_
    obtain ⟨below, visible⟩ := mem_remaining.mp remains
    have here : ⟨group.path ++ node.path, node.tree⟩ ∈ tree.nodesBelow :=
      mem_nodesBelow.mpr ⟨by simp [inner], by rw [within, (mem_nodes _ _).mp below]⟩
    exact none _ (mem_remaining.mpr ⟨here, visible⟩)
      (List.isPrefixOf_iff_prefix.mpr (List.prefix_append ..))
  · intro none node remains starts
    obtain ⟨here, visible⟩ := mem_remaining.mp remains
    obtain ⟨rest, same⟩ := List.isPrefixOf_iff_prefix.mp starts
    have below : ⟨rest, node.tree⟩ ∈ group.tree.nodes := by
      rw [mem_nodes, ← within, same]
      exact (mem_nodesBelow.mp here).2
    have left := mem_remaining.mpr ⟨below, visible⟩
    rw [none] at left
    contradiction

/-- What dissolving the invisible groups below a tree makes of it.  The root stays as it is, and of
the trivia only that of a group is lost of which no tree remains. -/
structure IsDissolved (tree result : Tree) : Prop where
  root : result.shell = tree.shell
  visible : ∀ path node, path ≠ [] → at? path result = some node → node.isInvisible = false
  tokens : result.tokens.map Token.bare = tree.tokens.map Token.bare
  compact : result.compact = tree.compact
  nodes : ∃ move, Settles move tree.nodesBelow result.nodesBelow
  lost : ∀ group ∈ tree.nodesBelow,
    heir? tree.nodesBelow group.path = none ↔ group.tree.flatten = []

theorem isInvisible_of_settles {move : List Nat → List Nat} {nodes others : List Node}
    (settles : Settles move nodes others) {node : Node} (member : node ∈ others) :
    node.tree.isInvisible = false := by
  have shell : node.shell ∈ others.map Node.shell := List.mem_map_of_mem member
  rw [settles.same] at shell
  obtain ⟨origin, remains, same⟩ := List.mem_map.mp shell
  have visible := (mem_remaining.mp remains).2
  have own : node.tree.shell = _ := congrArg Node.tree same.symm
  calc node.tree.isInvisible
    _ = node.tree.shell.isInvisible := by cases node.tree <;> rfl
    _ = origin.tree.isInvisible := by
      rw [own, settled]
      cases origin.tree <;> rfl
    _ = false := visible

theorem children_mapChildren (tree : Tree) :
    (tree.mapChildren flattenAll).children = flattenAll tree.children := by
  cases tree <;> rfl

theorem words_mapChildren (tree : Tree) : (tree.mapChildren flattenAll).words = tree.words := by
  cases tree with
  | leaf token => rfl
  | group bracket children =>
      rw [mapChildren, Tree.words, Tree.words, wordsAll_flattenAll]

theorem tokens_mapChildren (tree : Tree) :
    (tree.mapChildren flattenAll).tokens.map Token.bare = tree.tokens.map Token.bare := by
  cases tree with
  | leaf token => rfl
  | group bracket children => exact bareTokens_flattenAll children

theorem mapChildren_mapChildren (tree : Tree) :
    (tree.mapChildren flattenAll).mapChildren flattenAll = tree.mapChildren flattenAll := by
  cases tree with
  | leaf token => rfl
  | group bracket children => rw [mapChildren, mapChildren, flattenAll_flattenAll]

/-- Of every tree only the invisible groups below its root are gone, and a second time nothing
changes. -/
theorem isDissolved_flattenAll (tree : Tree) :
    IsDissolved tree (tree.mapChildren flattenAll) ∧
      (tree.mapChildren flattenAll).mapChildren flattenAll = tree.mapChildren flattenAll := by
  obtain ⟨move, settles⟩ := exists_settles_flattenAll tree.children 0 0
  rw [← children_mapChildren] at settles
  refine ⟨?_, mapChildren_mapChildren tree⟩
  exact {
    root := by cases tree <;> rfl
    visible := by
      intro path node inner found
      have member := (@mem_nodesBelow _ ⟨path, node⟩).mpr ⟨inner, found⟩
      exact isInvisible_of_settles settles member
    tokens := tokens_mapChildren tree
    compact := by rw [Tree.compact, Tree.compact, words_mapChildren]
    nodes := ⟨move, settles⟩
    lost := fun group member => heir?_eq_none_iff member }

/-- Trivia of groups within groups comes to the one tree that remains, except that of empty ones. -/
example :
    flattenAll [
      group { delimiter := .invisible, leading := "a" } [
        group { delimiter := .invisible, leading := "b" } [],
        group { delimiter := .invisible, leading := "c" } [
          group { delimiter := .paren, leading := "d" } [
            leaf { kind := .ident, text := "x", leading := "e" }]]],
      group { delimiter := .invisible, leading := "f" } []] =
      [group { delimiter := .paren, leading := "acd" } [
        leaf { kind := .ident, text := "x", leading := "e" }]] :=
  rfl

end Tree

end Headfirst
