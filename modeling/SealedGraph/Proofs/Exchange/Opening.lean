import Mathlib
import SealedGraph.Proofs.Exchange.EncodedRoot
import SealedGraph.Proofs.Json.Tidy
import SealedGraph.Proofs.Private.EntryHash

/-!
# What a buyer opens is what the seller sealed

The seller's commitment to an entry passes the buyer's check, and the key
opens it to the payload of the entry, which is read as data.  These are the data
of the entry if their numbers are read back from their texts.  Data that is
nested deeper than a text may be comes out as a payload that is refused; it is
never taken for other data.

## Main results

* `recoverTree_blind`: unmasking gives the seller's tree back.
* `received_eq_ok_iff`: which data the buyer gets as they are.
* `exists_sealed`: sealing and opening, for all payloads, settings and keys.
* `decodeOffer_encode`: the same where the numbers are read back.
-/

namespace SealedGraph.Committer

open Merkle

/-! ## The seller's side -/

section Seller

variable {c : Committer} {entry : PrivateEntry} {v : Json} {leaves : List Word}

theorem encode_eq_ok (hPayload : entry.payload? = some v)
    (hSplit : Blocks.splitLeaves v.canonicalBytes c.privacy = .ok leaves)
    (hHash : ∀ published, entry.hash = some published →
      c.hash entry = .ok published)
    (key : ExchangeKey) :
    c.encode entry key =
      .ok (commitmentTo (UInt64.ofNat v.canonicalBytes.length)
        (Tree.build leaves) key) := by
  rw [encode, payload_eq_ok hPayload]
  show Blocks.splitLeaves v.canonicalBytes c.privacy >>= _ = _
  rw [hSplit]
  cases hPublished : entry.hash with
  | none => rfl
  | some published =>
      have hSame : published = (Tree.build leaves).root := by
        have hRoot := hHash published hPublished
        rw [hash_eq_ok hPayload hSplit] at hRoot
        exact (Except.ok.inj hRoot).symm
      exact if_pos hSame

/-- A commitment is made to the leaves of the payload. -/
theorem eq_commitmentTo_of_encode {payload : Bytes} {key : ExchangeKey}
    {commitment : Commitment} (hPayload : Committer.payload entry = .ok payload)
    (hSplit : Blocks.splitLeaves payload c.privacy = .ok leaves)
    (h : c.encode entry key = .ok commitment) :
    commitment =
      commitmentTo (UInt64.ofNat payload.length) (Tree.build leaves) key := by
  simp only [encode, hPayload, hSplit, bind, Except.bind] at h
  split at h
  · cases h
    rfl
  · split at h
    · cases h
      rfl
    · cases h

end Seller

/-! ## The payload as data -/

/-- What a buyer takes the payload of some data for. -/
def received (v : Json) : Except Error Json :=
  match Json.parseBytes? v.canonicalBytes with
  | some data => .ok data
  | none => .error (.mismatch .notJson)

/-- Data whose numbers are read back are received in normal form, unless a text
may not nest so deeply. -/
theorem received_eq {v : Json} (hNumbers : v.ReadsBack) : received v =
    if v.normalize.depth ≤ Json.maxDepth then .ok v.normalize
    else .error (.mismatch .notJson) := by
  have hRead := Json.reread?_eq_self_iff.mpr hNumbers.normalize
  rw [received, Json.parseBytes?_canonicalBytes, hRead]
  by_cases hDepth : v.normalize.depth ≤ Json.maxDepth
  · rw [if_pos hDepth, if_pos hDepth]
  · rw [if_neg hDepth, if_neg hDepth]

theorem received_of_tidy {v : Json} (hTidy : Json.Tidy Json.maxDepth v) :
    received v = match v.reread? with
      | some data => .ok data
      | none => .error (.mismatch .notJson) := by
  rw [received, Json.parseBytes?_canonicalBytes, hTidy.normal,
    if_pos hTidy.depth_le]

/-- Tidy data are received as they are if, and only if, their numbers are read
back. -/
theorem received_eq_ok_iff {v : Json} (hTidy : Json.Tidy Json.maxDepth v) :
    received v = .ok v ↔ v.ReadsBack := by
  rw [received_of_tidy hTidy, ← Json.reread?_eq_self_iff]
  cases v.reread? <;> simp

/-! ## The buyer's side -/

theorem firstDifference?_self (words : List Word) :
    ∀ index, firstDifference? index words words = none := by
  induction words with
  | nil => intro index; rfl
  | cons word words ih =>
      intro index
      rw [firstDifference?, if_pos rfl]
      exact ih (index + 1)

theorem length_blind (key : ExchangeKey) (nodes : List Word) :
    (key.blind nodes).length = nodes.length :=
  key.length_blindFrom nodes 0

theorem recoverTree_blind {leaves : List Word} (hPos : 0 < leaves.length)
    (key : ExchangeKey) {count : UInt64}
    (hCount : count.toNat = leaves.length) :
    recoverTree (key.blind (Tree.build leaves).nodes) key count =
      .ok (Tree.build leaves) := by
  have hNodes :
      (Tree.build leaves).nodes = leaves ++ (Tree.build leaves).above.flatten :=
    rfl
  have hZero : count ≠ 0 := fun h => by
    rw [h] at hCount
    exact absurd hCount (Nat.ne_of_lt hPos)
  have hEnough :
      ¬ (count = 0 ∨
        (key.blind (Tree.build leaves).nodes).length < count.toNat) := by
    rw [length_blind, hCount, hNodes, List.length_append]
    rintro (h | h)
    · exact hZero h
    · omega
  have hFirst :
      firstWords? count.toNat (Tree.build leaves).nodes = some leaves := by
    rw [firstWords?, hCount, hNodes, if_pos (by rw [List.length_append]; omega),
      List.take_left]
  have hSame :
      ¬ (Tree.build leaves).nodeCount ≠ (Tree.build leaves).nodes.length :=
    fun h => h rfl
  rw [recoverTree, if_neg hEnough, key.blind_blind]
  simp only [hFirst, if_neg hSame, firstDifference?_self]

/-- Where the nodes can be counted, so can the leaves. -/
theorem toNat_leafCount {leaves : List Word}
    (hNodes : (Tree.build leaves).nodeCount < 2 ^ 64) :
    (UInt64.ofNat (Tree.build leaves).leafCount).toNat = leaves.length := by
  have hLeafCount : (Tree.build leaves).leafCount = leaves.length := rfl
  have hSum := Tree.nodeCount_eq (Tree.build leaves)
  rw [UInt64.toNat_ofNat_of_lt' (show _ < 2 ^ 64 by omega), hLeafCount]

section Buyer

variable {c : Committer} {v : Json} {leaves : List Word}
  (hSplit : Blocks.splitLeaves v.canonicalBytes c.privacy = .ok leaves)
  (hBytes : v.canonicalBytes.length < 2 ^ 64)
  (hNodes : (Tree.build leaves).nodeCount < 2 ^ 64) (key : ExchangeKey)

include hSplit hBytes hNodes

/-- The offer for a payload is accepted: its numbers and its root are the
seller's. -/
theorem verify_commitmentTo :
    c.verify
      (commitmentTo (UInt64.ofNat v.canonicalBytes.length) (Tree.build leaves)
        key).offer =
      .ok () := by
  have hLength :
      (UInt64.ofNat v.canonicalBytes.length).toNat = v.canonicalBytes.length :=
    UInt64.toNat_ofNat_of_lt' hBytes
  have hCount := toNat_leafCount hNodes
  have hAnnounced :=
    Blocks.toNat_announcedCount (UInt64.ofNat v.canonicalBytes.length) c.privacy
  rw [hLength, ← Blocks.length_splitLeaves c.valid hSplit] at hAnnounced
  refine verify_eq_ok.mpr ⟨?_, ?_, rfl⟩
  · show UInt64.ofNat (Tree.build leaves).leafCount = _
    rw [← UInt64.toNat_inj]
    exact hCount.trans hAnnounced.symm
  · have hEncoded :
        (key.blind (Tree.build leaves).nodes).length =
          (Tree.build leaves).nodeCount :=
      length_blind key _
    have hNodeCount := toNat_nodeCountFor hCount.symm
    rw [Machine.toNat_greatest] at hNodeCount
    show (key.blind (Tree.build leaves).nodes).length =
        (nodeCountFor (UInt64.ofNat
          (Tree.build leaves).leafCount)).toNat
    omega

/-- The key opens the seller's nodes to the payload. -/
theorem decodeVerified_commitmentTo :
    c.decodeVerified (key.blind (Tree.build leaves).nodes) key
        (UInt64.ofNat (Tree.build leaves).leafCount)
        (UInt64.ofNat v.canonicalBytes.length)
        (Tree.build leaves).root = received v := by
  have hCount := toNat_leafCount hNodes
  have hPos := Blocks.splitLeaves_pos c.valid hSplit
  have hJoin :
      Blocks.join (Tree.build leaves).leaves
        (UInt64.ofNat v.canonicalBytes.length)
      c.privacy = .ok v.canonicalBytes :=
    Blocks.join_splitLeaves c.valid hSplit (UInt64.toNat_ofNat_of_lt' hBytes)
  rw [decodeVerified, recoverTree_blind hPos key hCount]
  show (if (Tree.build leaves).root ≠ (Tree.build leaves).root then _
    else c.openTree (Tree.build leaves) _) = _
  rw [if_neg (fun h => h rfl), openTree, hJoin]
  rfl

end Buyer

/-- A commitment whose masked nodes stand in memory is accepted and opens to
the payload: a word of payload takes up a leaf at least, and a leaf a node. -/
theorem opens_of_encode {c : Committer} {entry : PrivateEntry} {v : Json}
    {key : ExchangeKey} {commitment : Commitment}
    (hPayload : entry.payload? = some v)
    (h : c.encode entry key = .ok commitment)
    (hMemory : 32 * commitment.encoded.length < 2 ^ 64) :
    commitment.key = key ∧ c.verify commitment.offer = .ok () ∧
      c.decodeOffer commitment.offer key = received v := by
  obtain ⟨leaves, hSplit, _⟩ :=
    Blocks.splitLeaves_eq_ok v.canonicalBytes c.valid
  cases eq_commitmentTo_of_encode (payload_eq_ok hPayload) hSplit h
  have hEncoded : 32 * (Tree.build leaves).nodeCount < 2 ^ 64 := by
    rw [← show _ = (Tree.build leaves).nodeCount from length_blind key _]
    exact hMemory
  have hNodes : (Tree.build leaves).nodeCount < 2 ^ 64 := by omega
  have hBytes : v.canonicalBytes.length < 2 ^ 64 := by
    have hCovered := Blocks.le_count_mul_size v.canonicalBytes.length c.privacy
    have hWidth := Blocks.size_le v.canonicalBytes.length c.valid
    have hLeaves : leaves.length ≤ (Tree.build leaves).nodeCount := by
      rw [Tree.nodeCount_eq]
      exact Nat.le_add_right _ _
    rw [← Blocks.length_splitLeaves c.valid hSplit] at hCovered
    calc v.canonicalBytes.length
        ≤ leaves.length * Blocks.size v.canonicalBytes.length c.privacy :=
          hCovered
      _ ≤ leaves.length * 32 := Nat.mul_le_mul_left _ hWidth
      _ ≤ (Tree.build leaves).nodeCount * 32 := Nat.mul_le_mul_right _ hLeaves
      _ < 2 ^ 64 := by omega
  have hVerify := verify_commitmentTo hSplit hBytes hNodes key
  refine ⟨rfl, hVerify, ?_⟩
  rw [decodeOffer, hVerify]
  exact decodeVerified_commitmentTo hSplit hBytes hNodes key

/-! ## Sealing and opening -/

section Sealing

variable {c : Committer} {entry : PrivateEntry} {v : Json}
  (hPayload : entry.payload? = some v)
  (hHash : ∀ published, entry.hash = some published →
    c.hash entry = .ok published)
  (hBytes : v.canonicalBytes.length < 2 ^ 64)
  (hNodes : ∀ tree, c.tree entry = .ok tree → tree.nodeCount < 2 ^ 64)
  (key : ExchangeKey)

include hPayload hHash hBytes hNodes

/-- Every entry with data, whose hash is missing or right, is sealed under every
key; the hash is the private root of the commitment, its offer is accepted, and
the key opens the offer to the payload.  Lengths of what stands in memory are
64-bit words. -/
theorem exists_sealed :
    ∃ commitment, c.encode entry key = .ok commitment ∧
      c.hash entry = .ok commitment.privateRoot ∧
      c.verify commitment.offer = .ok () ∧
      c.decodeOffer commitment.offer key = received v := by
  obtain ⟨leaves, hSplit, _⟩ :=
    Blocks.splitLeaves_eq_ok v.canonicalBytes c.valid
  have hFits := hNodes _ (tree_eq_ok hPayload hSplit)
  have hVerify := verify_commitmentTo hSplit hBytes hFits key
  refine ⟨_, encode_eq_ok hPayload hSplit hHash key, hash_eq_ok hPayload hSplit,
    hVerify, ?_⟩
  rw [decodeOffer, hVerify]
  exact decodeVerified_commitmentTo hSplit hBytes hFits key

/-- If the numbers of the data are read back from their texts, the key opens the
offer to the data of the entry, or to none if a text may not nest so deeply. -/
theorem decodeOffer_encode (hNumbers : v.ReadsBack) :
    ∃ commitment, c.encode entry key = .ok commitment ∧
      c.hash entry = .ok commitment.privateRoot ∧
      c.verify commitment.offer = .ok () ∧
      c.decodeOffer commitment.offer key =
        if v.normalize.depth ≤ Json.maxDepth then .ok v.normalize
        else .error (.mismatch .notJson) := by
  rw [← received_eq hNumbers]
  exact exists_sealed hPayload hHash hBytes hNodes key

end Sealing

/-- The number twelve and a half: three halves and a sixteenth of eight. -/
def twelveAndHalf : Json :=
  .number (.float ⟨false, 1026 * Binary64.binade + 2533274790395904, by decide⟩)

set_option maxRecDepth 100000 in
/-- The four bytes of `12.5`, sealed as four leaves of one byte. -/
theorem decodeOffer_encode_twelveAndHalf :
    twelveAndHalf.canonicalText = "12.5" ∧ twelveAndHalf.ReadsBack ∧
    ∃ commitment,
      byteCommitter.encode (.new twelveAndHalf) ⟨Word.zero⟩ = .ok commitment ∧
      byteCommitter.hash (.new twelveAndHalf) = .ok commitment.privateRoot ∧
      byteCommitter.verify commitment.offer = .ok () ∧
      byteCommitter.decodeOffer commitment.offer ⟨Word.zero⟩ =
        .ok twelveAndHalf := by
  have hText : twelveAndHalf.canonicalText = "12.5" := by decide +kernel
  have hNumbers : twelveAndHalf.ReadsBack := by decide +kernel
  have hSmall : ∀ tree ∈ (byteCommitter.tree (.new twelveAndHalf)).toOption,
      tree.nodeCount < 2 ^ 64 := by
    decide +kernel
  have hNodes : ∀ tree, byteCommitter.tree (.new twelveAndHalf) = .ok tree →
      tree.nodeCount < 2 ^ 64 := fun tree h => hSmall tree (by rw [h]; rfl)
  have hBytes : twelveAndHalf.canonicalBytes.length < 2 ^ 64 := by
    decide +kernel
  exact ⟨hText, hNumbers, decodeOffer_encode (v := twelveAndHalf) rfl
    (by rintro _ ⟨⟩) hBytes hNodes ⟨Word.zero⟩ hNumbers⟩

end SealedGraph.Committer
