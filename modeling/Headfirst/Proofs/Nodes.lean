import Headfirst.Proofs.MarkerCount
import Headfirst.Tree.Edit
import Mathlib.Data.List.Nodup

namespace Headfirst

open Headfirst.Tree

/-! The nodes of a tree with the paths that lead to them, each in front of what is below it. -/

/-- A node of a tree, with the path that leads to it. -/
structure Node where
  path : List Nat
  tree : Tree

namespace Node

/-- A node as it is found from one level further out. -/
def under (index : Nat) (node : Node) : Node :=
  { node with path := index :: node.path }

/-- A node without those below it. -/
def shell (node : Node) : Node :=
  { node with tree := node.tree.shell }

theorem mem_map_under {index : Nat} {nodes : List Node} {node : Node} :
    node ∈ nodes.map (under index) ↔
      ∃ path, node.path = index :: path ∧ ⟨path, node.tree⟩ ∈ nodes := by
  rw [List.mem_map]
  constructor
  · rintro ⟨inner, member, rfl⟩
    exact ⟨inner.path, rfl, member⟩
  · rintro ⟨path, same, member⟩
    refine ⟨_, member, ?_⟩
    cases node
    cases same
    rfl

/-- Nodes of which none lies within one of the others. -/
def Apart (left right : List Node) : Prop :=
  ∀ node ∈ left, ∀ other ∈ right, ¬ node.path <+: other.path ∧ ¬ other.path <+: node.path

theorem Apart.symm {left right : List Node} (apart : Apart left right) : Apart right left :=
  fun node member other there => (apart other there node member).symm

end Node

namespace Tree

open Node

mutual

/-- A tree and the nodes below it, each in front of what is below it, from the left. -/
def nodes : Tree → List Node
  | leaf token => [⟨[], leaf token⟩]
  | group bracket children => ⟨[], group bracket children⟩ :: nodesAll 0 children

/-- The nodes of a sequence whose first tree has the index `index`. -/
def nodesAll (index : Nat) : List Tree → List Node
  | [] => []
  | tree :: trees => tree.nodes.map (under index) ++ nodesAll (index + 1) trees

end

/-- The nodes below a tree. -/
def nodesBelow (tree : Tree) : List Node :=
  nodesAll 0 tree.children

variable {trees : List Tree}

theorem nodes_eq (tree : Tree) : tree.nodes = ⟨[], tree⟩ :: tree.nodesBelow := by
  cases tree <;> rfl

@[simp] theorem nodesBelow_withLeading (leading : String) (tree : Tree) :
    (tree.withLeading leading).nodesBelow = tree.nodesBelow := by
  cases tree <;> rfl

theorem nodesAll_cons (index : Nat) (tree : Tree) (trees : List Tree) :
    nodesAll index (tree :: trees) =
      ⟨[index], tree⟩ :: (tree.nodesBelow.map (under index) ++ nodesAll (index + 1) trees) := by
  rw [nodesAll, nodes_eq]
  rfl

theorem nodesAll_append (index : Nat) (left right : List Tree) :
    nodesAll index (left ++ right) =
      nodesAll index left ++ nodesAll (index + left.length) right := by
  induction left generalizing index with
  | nil => simp [nodesAll]
  | cons tree trees ih =>
      rw [List.cons_append, nodesAll, nodesAll, ih, List.append_assoc, List.length_cons,
        Nat.add_right_comm, Nat.add_assoc]

mutual

theorem mem_nodes : ∀ (tree : Tree) (node : Node),
    node ∈ tree.nodes ↔ at? node.path tree = some node.tree
  | leaf token, ⟨[], found⟩ => by simp [nodes, at?, eq_comm]
  | leaf token, ⟨index :: path, found⟩ => by simp [nodes, at?, children]
  | group bracket children, ⟨[], found⟩ => by
      have inner := mem_nodesAll children 0 ⟨[], found⟩
      simp [nodes, at?, inner, eq_comm]
  | group bracket children, ⟨index :: path, found⟩ => by
      have inner := mem_nodesAll children 0 ⟨index :: path, found⟩
      simp [nodes, at?, inner, Tree.children, and_assoc]

theorem mem_nodesAll : ∀ (trees : List Tree) (index : Nat) (node : Node),
    node ∈ nodesAll index trees ↔ ∃ offset path, node.path = (index + offset) :: path ∧
      trees[offset]?.bind (at? path) = some node.tree
  | [], index, node => by simp [nodesAll]
  | tree :: trees, index, node => by
      rw [nodesAll, List.mem_append, mem_map_under, mem_nodesAll trees]
      constructor
      · rintro (⟨path, same, member⟩ | ⟨offset, path, same, found⟩)
        · exact ⟨0, path, same, (mem_nodes tree _).mp member⟩
        · exact ⟨offset + 1, path, by rw [same, Nat.add_right_comm, Nat.add_assoc], found⟩
      · rintro ⟨_ | offset, path, same, found⟩
        · exact .inl ⟨path, same, (mem_nodes tree _).mpr found⟩
        · exact .inr ⟨offset, path, by rw [same, Nat.add_right_comm, Nat.add_assoc], found⟩

end

/-- The first step to a node is an index within the sequence. -/
theorem exists_index {index : Nat} {node : Node} (member : node ∈ nodesAll index trees) :
    ∃ first path, node.path = first :: path ∧ index ≤ first ∧ first < index + trees.length := by
  obtain ⟨offset, path, same, found⟩ := (mem_nodesAll trees index node).mp member
  obtain ⟨tree, here, -⟩ := Option.bind_eq_some_iff.mp found
  obtain ⟨within, -⟩ := List.getElem?_eq_some_iff.mp here
  exact ⟨index + offset, path, same, by omega, by omega⟩

theorem path_ne_nil {index : Nat} : ∀ node ∈ nodesAll index trees, node.path ≠ [] := by
  intro node member
  obtain ⟨first, path, same, -⟩ := exists_index member
  simp [same]

/-- The nodes below a tree are those to which some step leads. -/
theorem mem_nodesBelow {tree : Tree} {node : Node} :
    node ∈ tree.nodesBelow ↔ node.path ≠ [] ∧ at? node.path tree = some node.tree := by
  rw [← mem_nodes, nodes_eq, List.mem_cons]
  constructor
  · exact fun member => ⟨path_ne_nil node member, .inr member⟩
  · rintro ⟨inner, isRoot | member⟩
    · exact absurd (congrArg Node.path isRoot) inner
    · exact member

theorem at?_append (path rest : List Nat) (tree : Tree) :
    at? (path ++ rest) tree = (at? path tree).bind (at? rest) := by
  induction path generalizing tree with
  | nil => rfl
  | cons index path ih =>
      rw [List.cons_append, at?, at?, Option.bind_assoc]
      congr 1
      exact funext ih

mutual

theorem nodup_nodes : ∀ tree : Tree, (tree.nodes.map Node.path).Nodup
  | leaf token => by simp [nodes]
  | group bracket children => by
      rw [nodes, List.map_cons, List.nodup_cons]
      refine ⟨fun member => ?_, nodup_nodesAll children 0⟩
      obtain ⟨node, member, empty⟩ := List.mem_map.mp member
      exact path_ne_nil node member empty

theorem nodup_nodesAll : ∀ (trees : List Tree) (index : Nat),
    ((nodesAll index trees).map Node.path).Nodup
  | [], index => .nil
  | tree :: trees, index => by
      have own : (tree.nodes.map (under index)).map Node.path =
          (tree.nodes.map Node.path).map (index :: ·) := by
        rw [List.map_map, List.map_map]
        rfl
      rw [nodesAll, List.map_append, own]
      refine List.nodup_append.mpr ⟨(nodup_nodes tree).map List.cons_injective,
        nodup_nodesAll trees (index + 1), ?_⟩
      rintro path here _ there rfl
      obtain ⟨inner, -, rfl⟩ := List.mem_map.mp here
      obtain ⟨node, member, same⟩ := List.mem_map.mp there
      obtain ⟨first, path, starts, later, -⟩ := exists_index member
      rw [same, List.cons.injEq] at starts
      omega

end

theorem apart_nodesAll {index later : Nat} {left right : List Tree}
    (behind : index + left.length ≤ later) :
    Apart (nodesAll index left) (nodesAll later right) := by
  intro node here other there
  obtain ⟨first, path, same, -, within⟩ := exists_index here
  obtain ⟨second, path', same', beyond, -⟩ := exists_index there
  rw [same, same', List.cons_prefix_cons, List.cons_prefix_cons]
  omega

end Tree

end Headfirst
