import Mathlib
import SealedGraph.Proofs.Merkle.Binding

/-!
# Changing the leaves under a root

How many leaves a tree has fixes its shape, and with it the place of every
message that is hashed.  Lists of equally many leaves under one root are the
same, or two different messages of 64 bytes stand in the same place of the two
trees and have one digest.  A leaf that is replaced, and leaves that change
their order, therefore change the root, or exhibit such a pair.

## Main results

* `leaves_eq_or_clashes`: equally many leaves under one root.
* `changed_root_or_clashes`: what replacing, exchanging and reordering leaves
  does to the root.
-/

namespace SealedGraph.Merkle.Tree

/-- Two different messages of 64 bytes in the same place of two trees have one
digest. -/
def Clashes (t u : Tree) : Prop :=
  ∃ pair ∈ t.messages.zip u.messages, pair.1.length = 64 ∧ pair.2.length = 64 ∧
    pair.1 ≠ pair.2 ∧ keccak256 pair.1 = keccak256 pair.2

instance (t u : Tree) : Decidable (Clashes t u) := by
  unfold Clashes
  infer_instance

variable {leaves others : List Word}

theorem leaves_eq_or_clashes (hLen : others.length = leaves.length)
    (hRoot : (build others).root = (build leaves).root) :
    others = leaves ∨ (build others).Clashes (build leaves) := by
  rcases leaves_eq_or_collisionInPlace hLen hRoot with hSame | ⟨pair, hPair,
    hNe, hDigest⟩
  · exact .inl hSame
  · have hPlaces := List.of_mem_zip hPair
    exact .inr ⟨pair, hPair, length_of_mem_messages hPlaces.1,
      length_of_mem_messages hPlaces.2, hNe, hDigest⟩

/-- Other leaves, as many as before, have another root. -/
theorem root_ne_or_clashes (hLen : others.length = leaves.length)
    (hNe : others ≠ leaves) :
    (build others).root ≠ (build leaves).root ∨
      (build others).Clashes (build leaves) := by
  by_cases hRoot : (build others).root = (build leaves).root
  · exact .inr ((leaves_eq_or_clashes hLen hRoot).resolve_left hNe)
  · exact .inl hRoot

/-! ## Replacing and exchanging -/

/-- A list in which two places have exchanged what stands there. -/
def exchanged (leaves : List Word) (i j : Nat) (hi : i < leaves.length)
    (hj : j < leaves.length) :
    List Word :=
  (leaves.set i leaves[j]).set j leaves[i]

theorem set_ne {i : Nat} {leaf : Word} (hi : i < leaves.length)
    (hLeaf : leaf ≠ leaves[i]) :
    leaves.set i leaf ≠ leaves := by
  intro h
  have hPlace : (leaves.set i leaf)[i]? = leaves[i]? := by rw [h]
  rw [List.getElem?_set_self hi, List.getElem?_eq_getElem hi] at hPlace
  exact hLeaf (Option.some.inj hPlace)

theorem exchanged_ne {i j : Nat} (hi : i < leaves.length)
    (hj : j < leaves.length) (hLeaf : leaves[i] ≠ leaves[j]) :
    exchanged leaves i j hi hj ≠ leaves := by
  intro h
  have hPlace : (exchanged leaves i j hi hj)[j]? = leaves[j]? := by rw [h]
  unfold exchanged at hPlace
  rw [List.getElem?_set_self (by simpa using hj), List.getElem?_eq_getElem hj]
    at hPlace
  exact hLeaf (Option.some.inj hPlace)

/-- Equally many leaves under one root are the same.  So the root changes when a
leaf is replaced by a different one, when two different leaves are exchanged,
and when leaves are put in another order.  Otherwise two different messages in
the same place of the two trees have one digest. -/
theorem changed_root_or_clashes (leaves : List Word) :
    (∀ others : List Word, others.length = leaves.length →
      (build others).root = (build leaves).root →
        others = leaves ∨ (build others).Clashes (build leaves)) ∧
    (∀ i leaf (hi : i < leaves.length), leaf ≠ leaves[i] →
      (build (leaves.set i leaf)).root ≠ (build leaves).root ∨
        (build (leaves.set i leaf)).Clashes (build leaves)) ∧
    (∀ i j (hi : i < leaves.length) (hj : j < leaves.length), leaves[i] ≠
      leaves[j] →
      (build (exchanged leaves i j hi hj)).root ≠ (build leaves).root ∨
        (build (exchanged leaves i j hi hj)).Clashes (build leaves)) ∧
    (∀ others : List Word, others.Perm leaves → others ≠ leaves →
      (build others).root ≠ (build leaves).root ∨
        (build others).Clashes (build leaves)) := by
  refine ⟨fun others hLen hRoot => ?_, fun i leaf hi hLeaf => ?_,
    fun i j hi hj hLeaf => ?_, fun others hPerm hNe => ?_⟩
  · exact leaves_eq_or_clashes hLen hRoot
  · exact root_ne_or_clashes List.length_set (set_ne hi hLeaf)
  · have hLen : (exchanged leaves i j hi hj).length = leaves.length := by
      simp [exchanged]
    exact root_ne_or_clashes hLen (exchanged_ne hi hj hLeaf)
  · exact root_ne_or_clashes hPerm.length_eq hNe

/-- Three leaves, the last of which has no partner. -/
def unpaired : List Word := [Word.ofNat 1, Word.ofNat 2, Word.ofNat 3]

theorem changed_root_or_clashes_unpaired :
    (build (unpaired.set 2 Word.zero)).root ≠ (build unpaired).root ∧
      (build (exchanged unpaired 0 1 (by decide) (by decide))).root ≠
        (build unpaired).root ∧
      (build unpaired.reverse).root ≠ (build unpaired).root := by
  have hReplaced :
      ¬ (build (unpaired.set 2 Word.zero)).Clashes (build unpaired) := by
    decide +kernel
  have hExchanged :
      ¬ (build (exchanged unpaired 0 1 (by decide) (by decide))).Clashes
        (build unpaired) := by
    decide +kernel
  have hReversed : ¬ (build unpaired.reverse).Clashes (build unpaired) := by
    decide +kernel
  obtain ⟨_, hReplace, hExchange, hReorder⟩ := changed_root_or_clashes unpaired
  refine ⟨?_, ?_, ?_⟩
  · exact (hReplace 2 Word.zero (by decide) (by decide)).resolve_right hReplaced
  · exact (hExchange 0 1 (by decide) (by decide) (by decide)).resolve_right
      hExchanged
  · exact (hReorder unpaired.reverse unpaired.reverse_perm
      (by decide)).resolve_right hReversed

end SealedGraph.Merkle.Tree
