import Mathlib
import SealedGraph.Exchange.Sale
import SealedGraph.Proofs.Merkle.Binding
import SealedGraph.Proofs.Merkle.NodeCount
import SealedGraph.Proofs.Private.BlockArithmetic

/-!
# What an encoded root commits to

A buyer who accepts an offer holds a list of masked nodes with the announced
root.  The root does not say how long the list is.  Of two accepted offers
with one root, either both carry one list, or they announce different numbers
of leaves and one list stands again as a level of the tree on the other; the
second case does occur.

## Main results

* `verify_eq_ok`: what an offer must satisfy to be accepted.
* `encodedRoot_binds`: how the lists of accepted offers with one root are
  related.
* `encodedRoot_not_binding`: two accepted offers with one root and different
  lists.
-/

namespace SealedGraph.Committer

open Merkle

/-- The test for too few nodes adds nothing to the one on their number. -/
theorem verify_eq_ok {c : Committer} {o : Offer} :
    c.verify o = .ok () ↔
      o.count = Blocks.announcedCount o.length c.privacy ∧
        o.encoded.length = (nodeCountFor o.count).toNat ∧
          (Tree.build o.encoded).root = o.encodedRoot := by
  have hNodes := le_nodeCountFor o.count
  unfold verify
  constructor
  · intro h
    by_cases hCount : o.count ≠ Blocks.announcedCount o.length c.privacy
    · simp [if_pos hCount] at h
    · by_cases hFew : o.encoded.length < o.count.toNat
      · simp [if_neg hCount, if_pos hFew] at h
      · by_cases hLength : o.encoded.length ≠ (nodeCountFor o.count).toNat
        · simp [if_neg hCount, if_neg hFew, if_pos hLength] at h
        · by_cases hRoot : (Tree.build o.encoded).root ≠ o.encodedRoot
          · simp [if_neg hCount, if_neg hFew, if_neg hLength, if_pos hRoot] at h
          · exact ⟨not_not.mp hCount, not_not.mp hLength, not_not.mp hRoot⟩
  · rintro ⟨hCount, hLength, hRoot⟩
    simp only [if_neg (not_not.mpr hCount),
      if_neg (show ¬ o.encoded.length < o.count.toNat by omega),
      if_neg (not_not.mpr hLength), if_neg (not_not.mpr hRoot)]

/-- Accepted offers mask at least one node. -/
theorem length_encoded_pos {c : Committer} {o : Offer}
    (hOffer : c.verify o = .ok ()) :
    0 < o.encoded.length := by
  obtain ⟨hCount, hLength, _⟩ := verify_eq_ok.mp hOffer
  have hNodes := le_nodeCountFor o.count
  have hAnnounced := Blocks.toNat_announcedCount o.length c.privacy
  have hPos := Blocks.count_pos o.length.toNat c.valid
  rw [← hCount] at hAnnounced
  omega

/-- Two accepted offers with one encoded root carry one list of masked nodes, or
announce different numbers of leaves and one of their lists recurs in the tree
on the other, or two messages of these trees collide.  Lists that recur do have
one root. -/
theorem encodedRoot_binds {c : Committer} {o p : Offer}
    (ho : c.verify o = .ok ()) (hp : c.verify p = .ok ()) :
    (o.encodedRoot = p.encodedRoot →
      o.encoded = p.encoded ∨
      (o.count ≠ p.count ∧
        ((Tree.build o.encoded).Recurs (Tree.build p.encoded) ∨
          (Tree.build p.encoded).Recurs (Tree.build o.encoded))) ∨
      Collision
        ((Tree.build o.encoded).messages ++ (Tree.build p.encoded).messages)) ∧
    ((Tree.build o.encoded).Recurs (Tree.build p.encoded) →
      o.encodedRoot = p.encodedRoot) := by
  obtain ⟨_, hoLength, hoRoot⟩ := verify_eq_ok.mp ho
  obtain ⟨_, hpLength, hpRoot⟩ := verify_eq_ok.mp hp
  have hoPos := length_encoded_pos ho
  have hpPos := length_encoded_pos hp
  rw [← hoRoot, ← hpRoot]
  refine ⟨fun hRoot => ?_, Tree.root_eq_of_recurs hoPos hpPos⟩
  by_cases hCount : o.count = p.count
  · have hLength : o.encoded.length = p.encoded.length := by
      rw [hoLength, hpLength, hCount]
    rcases Tree.leaves_eq_or_collision hLength hRoot with hSame | hCollision
    · exact .inl hSame
    · exact .inr (.inr hCollision)
  · rcases Nat.le_total (Tree.build o.encoded).depth
      (Tree.build p.encoded).depth with hDepth | hDepth
    · rcases Tree.recurs_or_collision hoPos hpPos hDepth hRoot with hRecurs
        | hCollision
      · exact .inr (.inl ⟨hCount, .inl hRecurs⟩)
      · exact .inr (.inr hCollision)
    · rcases Tree.recurs_or_collision hpPos hoPos hDepth hRoot.symm with hRecurs
        | hCollision
      · exact .inr (.inl ⟨hCount, .inr hRecurs⟩)
      · exact .inr
          (.inr (hCollision.mono fun m hm =>
            List.mem_append.mpr (List.mem_append.mp hm).symm))

/-! ## A root of two lists -/

/-- At least one leaf of one byte. -/
def byteCommitter : Committer := ⟨⟨1, 1, ["private"]⟩, by decide⟩

/-- Two bytes of payload, masked as three words of zeros. -/
def zerosOffer : Offer :=
  let encoded := List.replicate 3 Word.zero
  ⟨2, 2, encoded, Word.zero, (Tree.build encoded).root⟩

/-- One byte of payload, masked as the encoded root of the other offer. -/
def rootOffer : Offer :=
  ⟨1, 1, [zerosOffer.encodedRoot], Word.zero, zerosOffer.encodedRoot⟩

theorem verify_zerosOffer : byteCommitter.verify zerosOffer = .ok () :=
  verify_eq_ok.mpr ⟨by decide, by decide, rfl⟩

theorem verify_rootOffer : byteCommitter.verify rootOffer = .ok () :=
  verify_eq_ok.mpr ⟨by decide, by decide, rfl⟩

theorem encodedRoot_binds_zeros :
    byteCommitter.verify rootOffer = .ok () ∧
      byteCommitter.verify zerosOffer = .ok () ∧
      rootOffer.encodedRoot = zerosOffer.encodedRoot ∧
        (rootOffer.encoded = zerosOffer.encoded ∨
          (rootOffer.count ≠ zerosOffer.count ∧
            ((Tree.build rootOffer.encoded).Recurs
              (Tree.build zerosOffer.encoded) ∨
              (Tree.build zerosOffer.encoded).Recurs
                (Tree.build rootOffer.encoded))) ∨
          Collision ((Tree.build rootOffer.encoded).messages ++
            (Tree.build zerosOffer.encoded).messages)) :=
  ⟨verify_rootOffer, verify_zerosOffer, rfl,
    (encodedRoot_binds verify_rootOffer verify_zerosOffer).1 rfl⟩

set_option maxRecDepth 100000 in
/-- The messages of the two offers do not collide, and yet their lists
differ. -/
theorem encodedRoot_not_binding :
    ¬ ∀ (c : Committer) (o p : Offer), c.verify o = .ok () →
    c.verify p = .ok () →
      o.encodedRoot = p.encodedRoot →
        o.encoded = p.encoded ∨
          Collision
            ((Tree.build o.encoded).messages ++
              (Tree.build p.encoded).messages) := by
  intro h
  have hNoCollision : ¬ Collision
      ((Tree.build rootOffer.encoded).messages ++
        (Tree.build zerosOffer.encoded).messages) := by
    decide +kernel
  rcases h byteCommitter rootOffer zerosOffer verify_rootOffer
    verify_zerosOffer rfl with
    hSame | hCollision
  · exact absurd (congrArg List.length hSame) (by decide)
  · exact hNoCollision hCollision

end SealedGraph.Committer
