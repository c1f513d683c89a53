import SealedGraph.Hash.Keccak

/-!
# Binary hash trees

A tree stands on a list of leaves, in the order given.  Each level pairs the
nodes of the level below; a last node without a partner is paired with itself.
All levels are kept, because all nodes of a tree are masked when it is sold.

## Main results

* `Tree.eq_build`: a tree is determined by its leaves.
* `length_parents`: a level has half as many nodes as the one below, rounded up.
-/

namespace SealedGraph.Merkle

/-- The node above two nodes: the digest of their 64 bytes. -/
def combine (left right : Word) : Word := keccak256 (left.bytes ++ right.bytes)

/-- The root of a tree without leaves: the digest of no bytes. -/
def emptyRoot : Word := keccak256 []

/-- The level above a level. -/
def parents : List Word → List Word
  | [] => []
  | [last] => [combine last last]
  | left :: right :: rest => combine left right :: parents rest

/-- The levels above a level up to a level of one node, at most `fuel` of
them. -/
def levelsAbove : (fuel : Nat) → List Word → List (List Word)
  | 0, _ => []
  | fuel + 1, level =>
      if level.length ≤ 1 then []
      else
        let next := parents level
        next :: levelsAbove fuel next

/-- A tree with all its levels.  The number of leaves bounds the number of
levels. -/
structure Tree where
  leaves : List Word
  /-- The levels above the leaves, the lowest first. -/
  above : List (List Word)
  above_eq : above = levelsAbove leaves.length leaves

namespace Tree

/-- The tree on the given leaves. -/
def build (leaves : List Word) : Tree :=
  ⟨leaves, levelsAbove leaves.length leaves, rfl⟩

/-- The tree whose leaves are the digests of byte strings. -/
def ofData (items : List Bytes) : Tree := build (items.map keccak256)

/-- All levels, the leaves first.  There is always a level, if an empty one. -/
def levels (t : Tree) : List (List Word) := t.leaves :: t.above

/-- All nodes, level by level from the leaves, each level from left to right. -/
def nodes (t : Tree) : List Word := t.levels.flatten

/-- The root: the only node of the last level. -/
def root (t : Tree) : Word :=
  match (t.above.getLast?.getD t.leaves).head? with
  | some top => top
  | none => emptyRoot

/-- The number of leaves. -/
def leafCount (t : Tree) : Nat := t.leaves.length

/-- The number of levels. -/
def depth (t : Tree) : Nat := t.levels.length

/-- The number of nodes. -/
def nodeCount (t : Tree) : Nat := t.nodes.length

theorem eq_build (t : Tree) : t = build t.leaves := by
  obtain ⟨leaves, above, hAbove⟩ := t
  subst hAbove
  rfl

end Tree

theorem length_parents (level : List Word) :
    (parents level).length = (level.length + 1) / 2 := by
  match level with
  | [] => rfl
  | [_] => simp [parents]
  | _ :: _ :: rest =>
      simp only [parents, List.length_cons, length_parents rest]
      omega

end SealedGraph.Merkle
