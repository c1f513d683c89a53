import Mathlib
import SealedGraph.Merkle.Size
import SealedGraph.Proofs.Merkle.Levels

/-!
# Counting nodes without a tree

The number of nodes depends only on the number of leaves.  Computed on 64-bit
words it is that of the tree, as long as it is a 64-bit word, and the greatest
word from there on.

## Main results

* `nodeCount_build`: the number of nodes of a tree, on natural numbers.
* `toNat_nodeCountFor`: the computed number and the number of nodes of a tree.
* `toNat_nodeCountFor_of_le`: few leaves have a number of nodes that is computed
  exactly.
-/

namespace SealedGraph.Merkle

/-! ## On natural numbers -/

/-- The number of nodes over so many leaves. -/
def nodesOver (leaves : Nat) : Nat :=
  if leaves ≤ 1 then leaves else leaves + nodesOver ((leaves + 1) / 2)
termination_by leaves
decreasing_by omega

theorem nodeCount_build (level : List Word) :
    (Tree.build level).nodeCount = nodesOver level.length := by
  induction level using Tree.level_induction with
  | short level hShort =>
      rw [Tree.nodeCount_eq, Tree.above_build_of_le_one hShort, nodesOver,
        if_pos hShort]
      rfl
  | long level hLong ih =>
      have hCount : (Tree.build level).leafCount = level.length := rfl
      have hParents :
          (Tree.build (parents level)).leafCount = (parents level).length := rfl
      rw [Tree.nodeCount_eq, hParents] at ih
      rw [Tree.nodeCount_eq, hCount, Tree.above_build_of_two_le hLong,
        List.flatten_cons, List.length_append, ih, length_parents,
        nodesOver.eq_def level.length, if_neg (by omega)]

theorem le_nodesOver (leaves : Nat) : leaves ≤ nodesOver leaves := by
  rw [nodesOver]
  split <;> omega

/-- There are at most three nodes for each leaf. -/
theorem nodesOver_le (leaves : Nat) : nodesOver leaves ≤ 3 * leaves := by
  induction leaves using Nat.strong_induction_on with
  | _ leaves ih =>
      rw [nodesOver]
      split
      · omega
      · -- From two nodes on, the level above has at most two thirds as many.
        have hUp := ih ((leaves + 1) / 2) (by omega)
        omega

/-! ## On 64-bit words -/

/-- Widths are halved often enough: a level of at most `2 ^ fuel` nodes has at
most `fuel` levels above it. -/
theorem toNat_countAbove :
    ∀ (fuel : Nat) (level : List Word) (width total : UInt64),
    level.length = width.toNat → level.length ≤ 2 ^ fuel →
    (countAbove fuel width total).toNat =
      min (total.toNat + (Tree.build level).above.flatten.length)
        Machine.greatest.toNat
  | 0, level, width, total, hWidth, hFit => by
      have hTotal := total.toNat_lt
      rw [Tree.above_build_of_le_one hFit, Machine.toNat_greatest]
      simp only [countAbove, List.flatten_nil, List.length_nil]
      omega
  | fuel + 1, level, width, total, hWidth, hFit => by
      have hTotal := total.toNat_lt
      have hOne : width ≤ 1 ↔ level.length ≤ 1 := by
        rw [UInt64.le_iff_toNat_le, hWidth]
        rfl
      by_cases hShort : level.length ≤ 1
      · rw [countAbove, if_pos (hOne.mpr hShort),
          Tree.above_build_of_le_one hShort, Machine.toNat_greatest]
        simp only [List.flatten_nil, List.length_nil]
        omega
      · have hLong : 2 ≤ level.length := by omega
        have hNext :
            (parents level).length = (Machine.ceilDiv width 2).toNat := by
          rw [length_parents, Machine.toNat_ceilDiv (by decide), hWidth]
          rfl
        have hHalf : (parents level).length ≤ 2 ^ fuel := by
          rw [length_parents]
          rw [pow_succ] at hFit
          omega
        have ih :=
          toNat_countAbove fuel (parents level) (Machine.ceilDiv width 2)
            (Machine.saturatingAdd total (Machine.ceilDiv width 2)) hNext hHalf
        rw [countAbove, if_neg (mt hOne.mp hShort), ih,
          Machine.toNat_saturatingAdd, Tree.above_build_of_two_le hLong,
          List.flatten_cons, List.length_append, hNext]
        omega

theorem toNat_nodeCountFor {level : List Word} {leaves : UInt64}
    (hLeaves : level.length = leaves.toNat) :
    (nodeCountFor leaves).toNat =
      min (Tree.build level).nodeCount Machine.greatest.toNat := by
  unfold nodeCountFor
  by_cases hZero : leaves = 0
  · subst hZero
    have hNil : level = [] := List.length_eq_zero_iff.mp hLeaves
    rw [if_pos rfl, hNil]
    rfl
  · have hFit : level.length ≤ 2 ^ 64 := by
      have := leaves.toNat_lt
      omega
    rw [if_neg hZero, toNat_countAbove 64 level leaves leaves hLeaves hFit,
      Tree.nodeCount_eq, ← hLeaves]
    rfl

theorem toNat_nodeCountFor_eq_nodesOver (leaves : UInt64) :
    (nodeCountFor leaves).toNat =
      min (nodesOver leaves.toNat) Machine.greatest.toNat := by
  have hLeaves :
      (List.replicate leaves.toNat Word.zero).length = leaves.toNat :=
    List.length_replicate
  rw [toNat_nodeCountFor hLeaves, nodeCount_build, hLeaves]

theorem le_nodeCountFor (leaves : UInt64) :
    leaves.toNat ≤ (nodeCountFor leaves).toNat := by
  have hWord := leaves.toNat_lt
  have hNodes := le_nodesOver leaves.toNat
  rw [toNat_nodeCountFor_eq_nodesOver, Machine.toNat_greatest]
  omega

/-- The number of nodes over a quarter of all words is still a word. -/
theorem toNat_nodeCountFor_of_le {leaves : UInt64}
    (hFew : leaves.toNat ≤ 2 ^ 62) :
    (nodeCountFor leaves).toNat = nodesOver leaves.toNat := by
  have hNodes := nodesOver_le leaves.toNat
  rw [toNat_nodeCountFor_eq_nodesOver, Machine.toNat_greatest]
  omega

end SealedGraph.Merkle
