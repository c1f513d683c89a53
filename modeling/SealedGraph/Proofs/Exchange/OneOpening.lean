import Mathlib
import SealedGraph.Proofs.Exchange.Acceptance

/-!
# An offer opens in one way

The announced root fixes the leaves of the tree that is recovered, since their
number is announced as well.  The masked nodes then give away the pads, and
the first pad is a digest of the key.  So two keys that open one offer are one
key, unless two of the messages that are hashed on the way have one digest.

## Main results

* `ExchangeKey.eq_or_collision`: equal nodes that are masked alike have one key.
* `sealed_eq_or_collision`: a masked tree with a known root opens to one list of
  leaves.
* `decodeOffer_unique`: an offer opens with one key and to one value.
-/

namespace SealedGraph

/-! ## Keys from pads -/

theorem Word.xor_comm (a b : Word) : a.xor b = b.xor a :=
  Word.ext (List.zipWith_comm_of_comm fun x y => UInt8.xor_comm x y)

theorem Word.eq_of_xor_eq {a b c : Word} (h : a.xor b = a.xor c) : b = c := by
  rw [a.xor_comm b, a.xor_comm c] at h
  rw [← b.xor_xor_cancel a, h, c.xor_xor_cancel a]

namespace ExchangeKey

variable {key other : ExchangeKey}

/-- What is hashed for the pads of the first positions. -/
def padInputs (key : ExchangeKey) (count : Nat) : List Bytes :=
  (List.range count).map key.padInput

theorem eq_of_padInput_eq {position : Nat}
    (h : key.padInput position = other.padInput position) :
    key = other := by
  have hBytes : key.word.bytes = other.word.bytes := List.append_cancel_right h
  cases key
  cases other
  exact congrArg ExchangeKey.mk (Word.ext hBytes)

/-- One list of nodes, masked alike by two keys, gives the keys away by their
first pads. -/
theorem eq_or_collision {nodes : List Word} (hPos : 0 < nodes.length)
    (h : key.blind nodes = other.blind nodes) :
    key = other ∨
      Collision
        (key.padInputs nodes.length ++ other.padInputs nodes.length) := by
  obtain ⟨node, rest, rfl⟩ := List.exists_cons_of_length_pos hPos
  have hFirst : node.xor (key.pad 0) = node.xor (other.pad 0) :=
    List.head_eq_of_cons_eq h
  have hPad : keccak256 (key.padInput 0) = keccak256 (other.padInput 0) :=
    Word.eq_of_xor_eq hFirst
  have hMem (k : ExchangeKey) :
      k.padInput 0 ∈ k.padInputs (node :: rest).length :=
    List.mem_map_of_mem (List.mem_range.mpr hPos)
  by_cases hInput : key.padInput 0 = other.padInput 0
  · exact .inl (eq_of_padInput_eq hInput)
  · exact .inr ⟨_, List.mem_append_left _ (hMem key), _,
      List.mem_append_right _ (hMem other), hInput, hPad⟩

end ExchangeKey

open Merkle

/-- Everything that is hashed when an offer is opened with a key: for the tree
on the masked nodes, for the pads, and for the tree on the leaves that come
out. -/
def Offer.openingMessages (o : Offer) (key : ExchangeKey) : List Bytes :=
  (Tree.build o.encoded).messages ++ key.padInputs o.encoded.length ++
    (Tree.build ((key.blind o.encoded).take o.count.toNat)).messages

namespace Committer

variable {c : Committer} {o : Offer} {key other : ExchangeKey}

/-! ## Leaves from roots -/

/-- Trees of one root on equally many leaves, masked alike, are one tree masked
with one key. -/
theorem sealed_eq_or_collision {leaves others : List Word}
    (hPos : 0 < leaves.length) (hLen : leaves.length = others.length)
    (hRoot : (Tree.build leaves).root = (Tree.build others).root)

    (hEncoded :
      key.blind (Tree.build leaves).nodes =
        other.blind (Tree.build others).nodes) :
    (leaves = others ∧ key = other) ∨
      Collision
        ((key.padInputs (Tree.build leaves).nodes.length ++
          (Tree.build leaves).messages) ++
          (other.padInputs (Tree.build leaves).nodes.length ++
            (Tree.build others).messages)) := by
  rcases Tree.leaves_eq_or_collision hLen hRoot with rfl | hCollision
  · have hNodes : 0 < (Tree.build leaves).nodes.length := by
      have hCount : (Tree.build leaves).leafCount = leaves.length := rfl
      have hSum := Tree.nodeCount_eq (Tree.build leaves)
      rw [← Tree.nodeCount]
      omega
    rcases ExchangeKey.eq_or_collision hNodes hEncoded with hKey | hCollision
    · exact .inl ⟨rfl, hKey⟩
    · exact .inr
        (hCollision.append (List.subset_append_left ..)
          (List.subset_append_left ..))
  · exact .inr
      (hCollision.append (List.subset_append_right ..)
        (List.subset_append_right ..))

/-- The messages of a masked tree are among those of the offer that carries
it. -/
theorem subset_openingMessages {leaves : List Word}
    (hCount : leaves.length = o.count.toNat)
    (hEncoded : o.encoded = key.blind (Tree.build leaves).nodes) :
    key.padInputs o.encoded.length ++ (Tree.build leaves).messages ⊆
      o.openingMessages key := by
  have hLeaves : (key.blind o.encoded).take o.count.toNat = leaves := by
    rw [hEncoded, key.blind_blind, ← hCount]
    exact List.take_left
  rw [Offer.openingMessages, hLeaves, List.append_assoc]
  exact List.subset_append_right ..

/-- Two ways to make the masked nodes of an offer from trees with the announced
root are one. -/
theorem opened_eq_or_collision {leaves others : List Word}
    (hPos : 0 < leaves.length) (hLeft : leaves.length = o.count.toNat)
    (hRight : others.length = o.count.toNat)
    (hRoot : (Tree.build leaves).root = (Tree.build others).root)
    (hLeftEncoded : o.encoded = key.blind (Tree.build leaves).nodes)
    (hRightEncoded : o.encoded = other.blind (Tree.build others).nodes) :
    (leaves = others ∧ key = other) ∨
      Collision (o.openingMessages key ++ o.openingMessages other) := by
  have hLength : (Tree.build leaves).nodes.length = o.encoded.length := by
    rw [hLeftEncoded, length_blind]
  rcases sealed_eq_or_collision hPos (hLeft.trans hRight.symm) hRoot
    (hLeftEncoded.symm.trans hRightEncoded) with hSame | hCollision
  · exact .inl hSame
  · rw [hLength] at hCollision
    exact .inr (hCollision.append (subset_openingMessages hLeft hLeftEncoded)
      (subset_openingMessages hRight hRightEncoded))

/-! ## Offers -/

/-- A commitment is made to the leaves of a payload. -/
theorem exists_of_encode {entry : PrivateEntry} {commitment : Commitment}
    (h : c.encode entry key = .ok commitment) :
    ∃ payload leaves, Blocks.splitLeaves payload c.privacy = .ok leaves ∧
      commitment =
        commitmentTo (UInt64.ofNat payload.length) (Tree.build leaves) key := by
  obtain ⟨payload, hPayload, hRest⟩ := bind_eq_ok.mp h
  obtain ⟨leaves, hSplit, _⟩ := bind_eq_ok.mp hRest
  exact ⟨payload, leaves, hSplit, eq_commitmentTo_of_encode hPayload hSplit h⟩

/-- The count of an accepted offer that a seller made is that of the leaves:
more than a 64-bit word of them would come with more masked nodes than are ever
accepted. -/
theorem toNat_count_of_verify {leaves : List Word} {length : UInt64}
    (h : c.verify (commitmentTo length (Tree.build leaves) key).offer =
      .ok ()) :
    (UInt64.ofNat (Tree.build leaves).leafCount).toNat = leaves.length := by
  obtain ⟨_, hLength, _⟩ := verify_eq_ok.mp h
  refine toNat_leafCount ?_
  calc (Tree.build leaves).nodeCount
      = (key.blind (Tree.build leaves).nodes).length :=
        (length_blind key _).symm
    _ = (nodeCountFor (UInt64.ofNat (Tree.build leaves).leafCount)).toNat :=
      hLength
    _ < 2 ^ 64 := UInt64.toNat_lt _

/-- An offer that opens with a key opens with no other key, and to no other
value; and if it was made by a seller, the key is the seller's.  Otherwise two
of the messages that are hashed when it is opened with both keys collide. -/
theorem decodeOffer_unique {v : Json} (h : c.decodeOffer o key = .ok v) :
    (∀ other v', c.decodeOffer o other = .ok v' →
      (v' = v ∧ other = key) ∨
        Collision (o.openingMessages other ++ o.openingMessages key)) ∧
    ∀ entry seller commitment, c.encode entry seller = .ok commitment →
    commitment.offer = o →
      seller = key ∨
        Collision (o.openingMessages seller ++ o.openingMessages key) := by
  obtain ⟨payload, leaves, hSeals, hParse, hRoot⟩ := seals_of_decodeOffer h
  constructor
  · intro other v' h'
    obtain ⟨payload', leaves', hSeals', hParse', hRoot'⟩ :=
      seals_of_decodeOffer h'
    have hPos := Blocks.splitLeaves_pos c.valid hSeals'.split
    rcases opened_eq_or_collision hPos hSeals'.count_eq hSeals.count_eq
      (hRoot'.trans hRoot.symm) hSeals'.encoded_eq hSeals.encoded_eq with ⟨rfl,
        hKey⟩ | hCollision
    · -- The offer announces one length, at which the leaves are joined to one
      -- payload.
      have hJoin :=
        Blocks.join_splitLeaves c.valid hSeals.split hSeals.length_eq.symm
      have hJoin' :=
        Blocks.join_splitLeaves c.valid hSeals'.split hSeals'.length_eq.symm
      obtain rfl : payload' = payload := Except.ok.inj (hJoin'.symm.trans hJoin)
      exact .inl ⟨Option.some.inj (hParse'.symm.trans hParse), hKey⟩
    · exact .inr hCollision
  · rintro entry seller commitment hEncode rfl
    obtain ⟨sold, made, hSplit, rfl⟩ := exists_of_encode hEncode
    obtain ⟨_, hVerify, _⟩ := bind_eq_ok.mp h
    have hMadePos := Blocks.splitLeaves_pos c.valid hSplit
    rcases opened_eq_or_collision hMadePos
      (toNat_count_of_verify hVerify).symm hSeals.count_eq
      hRoot.symm rfl hSeals.encoded_eq with ⟨_, hKey⟩ | hCollision
    · exact .inl hKey
    · exact .inr hCollision

/-! ## An offer of one leaf -/

/-- At least one leaf, of at most 32 bytes. -/
def wordCommitter : Committer := ⟨⟨1, 32, ["private"]⟩, by decide⟩

set_option maxRecDepth 100000 in
/-- The text `true` in one leaf, with no node above it that a wrong key would
fail to meet. -/
theorem decodeOffer_unique_true :
    ∃ sold v, wordCommitter.encode (.new (.bool true)) ⟨Word.zero⟩ = .ok sold ∧
      wordCommitter.decodeOffer sold.offer ⟨Word.zero⟩ = .ok v ∧
      (∀ other v', wordCommitter.decodeOffer sold.offer other = .ok v' →
        (v' = v ∧ other = ⟨Word.zero⟩) ∨ Collision
          (sold.offer.openingMessages other ++
            sold.offer.openingMessages ⟨Word.zero⟩)) ∧
      ∀ entry seller commitment,
        wordCommitter.encode entry seller = .ok commitment →
        commitment.offer = sold.offer → seller = ⟨Word.zero⟩ ∨ Collision
          (sold.offer.openingMessages seller ++
            sold.offer.openingMessages ⟨Word.zero⟩) := by
  have hSold :
      (wordCommitter.encode (.new (.bool true))
        ⟨Word.zero⟩).toOption.isSome := by
    decide +kernel
  have hOpens :
      ∀ sold ∈ (wordCommitter.encode (.new (.bool true)) ⟨Word.zero⟩).toOption,
      (wordCommitter.decodeOffer sold.offer ⟨Word.zero⟩).toOption.isSome := by
    decide +kernel
  obtain ⟨sold, hEncode⟩ := Option.isSome_iff_exists.mp hSold
  obtain ⟨v, hDecode⟩ := Option.isSome_iff_exists.mp (hOpens sold hEncode)
  have hDecoded := toOption_eq_some.mp hDecode
  exact ⟨sold, v, toOption_eq_some.mp hEncode, hDecoded,
    decodeOffer_unique hDecoded⟩

end Committer
end SealedGraph
