import SealedGraph.Proofs.Exchange.Opening
import SealedGraph.Proofs.Private.Joining

/-!
# What a hostile offer can do

A buyer computes on numbers that somebody else announces.  Whatever they are,
and whatever the masked nodes and the key, each of the buyer's steps ends with
a value or with a mismatch.

The numbers are words, of which the greatest stand for payloads that no memory
holds.  Still a buyer decides as on natural numbers, with the same errors.  The
number of nodes over a huge number of leaves is no word; but it is computed
only when there are at least as many masked nodes as leaves, and then it is
one.

## Main results

* `verify_eq_verifyExact`: offers are checked as on natural numbers.
* `answered_verify`, `answered_recoverTree`, `answered_openTree`: the steps of a
  buyer.
* `buyer_answered`: whatever is offered, a buyer gets a value or a mismatch.
-/

namespace SealedGraph.Committer

open Merkle

/-! ## Checking -/

/-- The check of an offer on natural numbers. -/
def verifyExact (c : Committer) (o : Offer) : Except Error Unit :=
  let expected := Blocks.count o.length.toNat c.privacy
  if o.count.toNat ≠ expected then
    .error
      (.mismatch (.announcedCount o.length (UInt64.ofNat expected) o.count))
  else if o.encoded.length < expected then
    .error (.mismatch (.tooFewNodes o.count o.encoded.length))
  else
    let nodes := nodesOver expected
    if o.encoded.length ≠ nodes
      then .error (.mismatch (.nodeCount nodes o.encoded.length))
    else
      let root := (Tree.build o.encoded).root
      if root ≠ o.encodedRoot
        then .error (.mismatch (.encodedRoot root o.encodedRoot))
      else .ok ()

/-- Masked nodes that stand in memory, 32 bytes each, are checked as on natural
numbers. -/
theorem verify_eq_verifyExact (c : Committer) {o : Offer}
    (hMemory : 32 * o.encoded.length < 2 ^ 64) :
    c.verify o = c.verifyExact o := by
  have hCount : o.count = UInt64.ofNat (Blocks.count o.length.toNat c.privacy) ↔
      o.count.toNat = Blocks.count o.length.toNat c.privacy := by
    rw [← Blocks.announcedCount_eq, ← Blocks.toNat_announcedCount,
      UInt64.toNat_inj]
  unfold verify verifyExact
  simp only [ne_eq, Blocks.announcedCount_eq, hCount]
  by_cases hAnnounced : o.count.toNat = Blocks.count o.length.toNat c.privacy
  · simp only [← hAnnounced, not_true, if_false]
    by_cases hFew : o.encoded.length < o.count.toNat
    · simp only [if_pos hFew]
    · -- Here the order of the tests matters: the number of leaves is bounded by
      -- that of the nodes.
      have hNodes : (nodeCountFor o.count).toNat = nodesOver o.count.toNat :=
        toNat_nodeCountFor_of_le (by omega)
      simp only [hNodes]
  · simp only [if_pos hAnnounced]

theorem answered_verify (c : Committer) (o : Offer) : Answered (c.verify o) :=
  answered_unless fun _ => answered_unless fun _ => answered_unless fun _ =>
    answered_unless fun _ => answered_ok ()

/-! ## Opening -/

/-- There are as many unmasked nodes as masked ones, so that enough of them are
left to be leaves. -/
theorem answered_recoverTree (encoded : List Word) (key : ExchangeKey)
    (count : UInt64) :
    Answered (recoverTree encoded key count) := by
  refine answered_unless fun hEnough => ?_
  have hLeaves : firstWords? count.toNat (key.blind encoded) =
      some ((key.blind encoded).take count.toNat) := by
    refine if_pos ?_
    rw [length_blind]
    exact Nat.not_lt.mp fun hFew => hEnough (.inr hFew)
  simp only [hLeaves]
  refine answered_unless fun _ => ?_
  cases firstDifference? 0
    (Tree.build ((key.blind encoded).take count.toNat)).nodes
      (key.blind encoded) with
  | none => exact answered_ok _
  | some index => exact answered_mismatch _

theorem join_eq_joinExact_of_valid (c : Committer) (leaves : List Word)
    (length : UInt64) :
    Blocks.join leaves length c.privacy =
      Blocks.joinExact leaves length c.privacy :=
  Blocks.join_eq_joinExact (Blocks.size_le length.toNat c.valid)

theorem answered_openTree (c : Committer) (tree : Tree) (length : UInt64) :
    Answered (c.openTree tree length) := by
  have hJoin : Answered (Blocks.join tree.leaves length c.privacy) := by
    rw [join_eq_joinExact_of_valid]
    exact Blocks.answered_joinExact tree.leaves length c.privacy
  refine hJoin.bind fun payload _ => ?_
  cases Json.parseBytes? payload with
  | none => exact answered_mismatch .notJson
  | some data => exact answered_ok data

theorem answered_decodeVerified (c : Committer) (encoded : List Word)
    (key : ExchangeKey) (count length : UInt64) (published : Word) :
    Answered (c.decodeVerified encoded key count length published) :=
  (answered_recoverTree encoded key count).bind fun tree _ =>
    answered_unless fun _ => answered_openTree c tree length

/-! ## The buyer -/

/-- A tree on no more leaves than there are masked nodes in memory has word many
nodes. -/
theorem nodeCount_lt_of_memory {leaves encoded : List Word}
    (hMemory : 32 * encoded.length < 2 ^ 64)
    (hLeaves : leaves.length ≤ encoded.length) :
    (Tree.build leaves).nodeCount < 2 ^ 64 := by
  have hNodes := nodesOver_le leaves.length
  rw [nodeCount_build]
  omega

/-- Whatever is offered, each of a buyer's steps ends with a value or with a
mismatch.  Masked nodes that stand in memory are checked as on natural numbers,
and so are the numbers of nodes of the trees that are built on some of them;
leaves are joined as on natural numbers. -/
theorem buyer_answered (c : Committer) (o : Offer) (key : ExchangeKey)
    (encoded : List Word) (count length : UInt64) (published : Word) :
    (Answered (c.verify o) ∧ Answered (c.decodeOffer o key) ∧
      Answered (c.decode encoded key count length) ∧
      Answered (c.decodeVerified encoded key count length published)) ∧
    (32 * o.encoded.length < 2 ^ 64 → c.verify o = c.verifyExact o) ∧
    (32 * encoded.length < 2 ^ 64 →
      ∀ leaves : List Word, leaves.length ≤ encoded.length →
      (Tree.build leaves).nodeCount < 2 ^ 64) ∧
    ∀ leaves, Blocks.join leaves length c.privacy =
      Blocks.joinExact leaves length c.privacy := by
  refine ⟨⟨?_, ?_, ?_, ?_⟩, verify_eq_verifyExact c, ?_, ?_⟩
  · exact answered_verify c o
  · exact (answered_verify c o).bind fun _ _ =>
      answered_decodeVerified c o.encoded key o.count o.length o.privateRoot
  · exact (answered_recoverTree encoded key count).bind fun tree _ =>
      answered_openTree c tree length
  · exact answered_decodeVerified c encoded key count length published
  · intro hMemory leaves hLeaves
    exact nodeCount_lt_of_memory hMemory hLeaves
  · intro leaves
    exact join_eq_joinExact_of_valid c leaves length

/-- The greatest length and as many leaves, for three masked nodes. -/
def greatestOffer : Offer :=
  { zerosOffer with length := Machine.greatest, count := Machine.greatest }

theorem buyer_answered_greatest :
    byteCommitter.verify greatestOffer =
      .error (.mismatch (.tooFewNodes Machine.greatest 3)) ∧
      Answered (byteCommitter.decodeOffer greatestOffer ⟨Word.zero⟩) := by
  have hBuyer :=
    buyer_answered byteCommitter greatestOffer ⟨Word.zero⟩ greatestOffer.encoded
      Machine.greatest Machine.greatest Word.zero
  have hExact := hBuyer.2.1 (by decide)
  refine ⟨?_, hBuyer.1.2.1⟩
  rw [hExact]
  rfl

end SealedGraph.Committer
