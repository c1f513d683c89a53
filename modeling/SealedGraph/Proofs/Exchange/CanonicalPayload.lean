import Mathlib
import SealedGraph.Proofs.Exchange.OneOpening
import SealedGraph.Proofs.Private.Restoring

/-!
# Which opened data have the published hash

The root of an offer commits to the bytes of a payload, and the hash of an
entry to the canonical text of its data.  A buyer reads the payload as any
JSON text, so that the two agree when the payload is canonical, and the data
are something to commit to.  A payload with a blank in it opens as well, and
its data are then refused by the entry that was published.

## Main results

* `onePayload_of_root_eq`: payloads of one root are one, recur in each other, or
  collide.
* `hash_of_decodeOffer`: when opened data have the published hash and can be put
  back.
* `hash_lost_to_blank`: an offer that opens to data with another hash.
-/

namespace SealedGraph.Committer

open Merkle

variable {c : Committer} {v : Json} {root : Word}

/-! ## Fresh entries -/

theorem payload?_new (hData : v ≠ .null) :
    (PrivateEntry.new v).payload? = some v := by
  cases v <;> first | rfl | exact absurd rfl hData

/-- A fresh entry has the hash of the canonical text of its data, which are not
`null`. -/
theorem hash_new_eq_ok :
    c.hash (.new v) = .ok root ↔
      v ≠ .null ∧ ∃ leaves,
        Blocks.splitLeaves v.canonicalBytes c.privacy = .ok leaves ∧
        (Tree.build leaves).root = root := by
  obtain ⟨leaves, hSplit, _⟩ :=
    Blocks.splitLeaves_eq_ok v.canonicalBytes c.valid
  constructor
  · intro h
    have hData : v ≠ .null := by
      rintro rfl
      cases h
    rw [hash_eq_ok (payload?_new hData) hSplit] at h
    exact ⟨hData, leaves, hSplit, Except.ok.inj h⟩
  · rintro ⟨hData, others, hOthers, rfl⟩
    exact hash_eq_ok (payload?_new hData) hOthers

/-! ## Payloads of one root -/

/-- Two payloads, on whose leaves two trees stand, are one; or their lengths
differ and the leaves of one recur in the other tree; or two messages of the
trees collide. -/
def OnePayload (payload other : Bytes) (t t' : Tree) : Prop :=
  payload = other ∨
    (payload.length ≠ other.length ∧ (t.Recurs t' ∨ t'.Recurs t)) ∨
    Collision (t.messages ++ t'.messages)

theorem onePayload_of_root_eq {payload other : Bytes}
    {leaves others : List Word}
    (hSplit : Blocks.splitLeaves payload c.privacy = .ok leaves)
    (hOther : Blocks.splitLeaves other c.privacy = .ok others)
    (hFits : payload.length < 2 ^ 64)
    (hRoot : (Tree.build leaves).root = (Tree.build others).root) :
    OnePayload payload other (Tree.build leaves) (Tree.build others) := by
  by_cases hLength : payload.length = other.length
  · have hLeaves : leaves.length = others.length := by
      rw [Blocks.length_splitLeaves c.valid hSplit,
        Blocks.length_splitLeaves c.valid hOther, hLength]
    rcases Tree.leaves_eq_or_collision hLeaves hRoot with rfl | hCollision
    · -- Leaves and a length that can be announced are joined to one payload.
      have hWord : (UInt64.ofNat payload.length).toNat = payload.length :=
        UInt64.toNat_ofNat_of_lt' hFits
      have hJoin := Blocks.join_splitLeaves c.valid hSplit hWord
      have hJoinOther :=
        Blocks.join_splitLeaves c.valid hOther (hWord.trans hLength)
      exact .inl (Except.ok.inj (hJoin.symm.trans hJoinOther))
    · exact .inr (.inr hCollision)
  · have hPos := Blocks.splitLeaves_pos c.valid hSplit
    have hOtherPos := Blocks.splitLeaves_pos c.valid hOther
    rcases Tree.recurs_either_or_collision hPos hOtherPos hRoot with hRecurs
      | hCollision
    · exact .inr (.inl ⟨hLength, hRecurs⟩)
    · exact .inr (.inr hCollision)

/-! ## Opened data -/

/-- Behind an offer that opens to data stands a payload.  If it is the canonical
text of data other than `null`, these data have the announced hash.  Data with
the announced hash are put back into every graph in which they were published;
and the payload was their canonical text, but for payloads of one root. -/
theorem hash_of_decodeOffer {o : Offer} {key : ExchangeKey}
    (h : c.decodeOffer o key = .ok v) :
    ∃ payload leaves, c.Seals key payload leaves o.encoded o.count o.length ∧
      Json.parseBytes? payload = some v ∧
      (Tree.build leaves).root = o.privateRoot ∧
      (v ≠ .null ∧ payload = v.canonicalBytes →
        c.hash (.new v) = .ok o.privateRoot) ∧
      (c.hash (.new v) = .ok o.privateRoot →
        (v ≠ .null ∧ ∃ tree, c.tree (.new v) = .ok tree ∧
          OnePayload payload v.canonicalBytes (Tree.build leaves) tree) ∧
        ∀ graph objectId entries, c.entries graph = .ok entries →
          (∃ found ∈ entries,
            isCommittedAs objectId o.privateRoot found.1 found.2 = true) →
          ∃ restored, c.restoreGraph graph objectId v = .ok restored) := by
  obtain ⟨payload, leaves, hSeals, hParse, hRoot⟩ := seals_of_decodeOffer h
  refine ⟨payload, leaves, hSeals, hParse, hRoot, ?_, fun hHash => ⟨?_, ?_⟩⟩
  · rintro ⟨hData, rfl⟩
    exact hash_new_eq_ok.mpr ⟨hData, leaves, hSeals.split, hRoot⟩
  · obtain ⟨hData, others, hOthers, hSame⟩ := hash_new_eq_ok.mp hHash
    have hFits : payload.length < 2 ^ 64 := by
      rw [hSeals.length_eq]
      exact o.length.toNat_lt
    exact ⟨hData, _, tree_eq_ok (payload?_new hData) hOthers,
      onePayload_of_root_eq hSeals.split hOthers hFits (hRoot.trans hSame.symm)⟩
  · intro graph objectId entries hEntries hFound
    exact restoreGraph_ok_iff.mpr ⟨o.privateRoot, entries, hHash,
      hEntries, hFound⟩

/-! ## A payload with a blank -/

/-- A payload of some length in one leaf, masked by the key of zeros. -/
def leafOffer (length : UInt64) (leaf : Word) : Offer :=
  let encoded := ExchangeKey.blind ⟨Word.zero⟩ [leaf]
  ⟨length, 1, encoded, leaf, (Tree.build encoded).root⟩

/-- The canonical text `[1,2]`. -/
def pairLeaf : Word := ⟨List.replicate 27 0 ++ [91, 49, 44, 50, 93], by decide⟩

/-- The text `[1, 2]`. -/
def blankLeaf : Word :=
  ⟨List.replicate 26 0 ++ [91, 49, 44, 32, 50, 93], by decide⟩

/-- A graph in which an entry was published with that text. -/
def pairGraph : List GraphObject :=
  [(GraphObject.new "a").withProperty "private"
    (.array [PrivateEntry.json { hash := some pairLeaf }])]

set_option maxRecDepth 100000 in
theorem hash_of_decodeOffer_pair :
    ∃ v payload leaves,
      wordCommitter.decodeOffer (leafOffer 5 pairLeaf) ⟨Word.zero⟩ = .ok v ∧
      wordCommitter.Seals ⟨Word.zero⟩ payload leaves
      (leafOffer 5 pairLeaf).encoded 1 5 ∧
      Json.parseBytes? payload = some v ∧ (Tree.build leaves).root = pairLeaf ∧
      wordCommitter.hash (.new v) = .ok pairLeaf ∧
      (v ≠ .null ∧ ∃ tree, wordCommitter.tree (.new v) = .ok tree ∧
        OnePayload payload v.canonicalBytes (Tree.build leaves) tree) ∧
      ∃ restored,
        wordCommitter.restoreGraph pairGraph "a" v = .ok restored := by
  have hOpens :
      (wordCommitter.decodeOffer (leafOffer 5 pairLeaf)
        ⟨Word.zero⟩).toOption.isSome := by
    decide +kernel
  have hSame :
      ∀ v ∈ (wordCommitter.decodeOffer (leafOffer 5 pairLeaf)
        ⟨Word.zero⟩).toOption,
      (wordCommitter.hash (.new v)).toOption = some pairLeaf := by
    decide +kernel
  have hListed : (wordCommitter.entries pairGraph).toOption.isSome := by
    decide +kernel
  have hPublished : ∀ entries ∈ (wordCommitter.entries pairGraph).toOption,
      ∃ found ∈ entries, isCommittedAs "a" pairLeaf found.1 found.2 = true := by
    decide +kernel
  obtain ⟨v, hDecode⟩ := Option.isSome_iff_exists.mp hOpens
  obtain ⟨entries, hEntries⟩ := Option.isSome_iff_exists.mp hListed
  have hDecoded := toOption_eq_some.mp hDecode
  have hHash := toOption_eq_some.mp (hSame v hDecode)
  obtain ⟨payload, leaves, hSeals, hParse, hRoot, _, hBack⟩ :=
    hash_of_decodeOffer hDecoded
  obtain ⟨hPayload, hRestores⟩ := hBack hHash
  exact ⟨v, payload, leaves, hDecoded, hSeals, hParse, hRoot, hHash, hPayload,
    hRestores _ _ entries (toOption_eq_some.mp hEntries)
      (hPublished entries hEntries)⟩

set_option maxRecDepth 100000 in
/-- The offer opens to the pair of 1 and 2, whose hash is not the one that was
announced. -/
theorem hash_lost_to_blank :
    ¬ ∀ (c : Committer) (o : Offer) (key : ExchangeKey) (v : Json),
      c.decodeOffer o key = .ok v → c.hash (.new v) = .ok o.privateRoot := by
  intro h
  have hOpens :
      (wordCommitter.decodeOffer (leafOffer 6 blankLeaf)
        ⟨Word.zero⟩).toOption.isSome := by
    decide +kernel
  have hOther :
      ∀ v ∈ (wordCommitter.decodeOffer (leafOffer 6 blankLeaf)
        ⟨Word.zero⟩).toOption,
      (wordCommitter.hash (.new v)).toOption ≠ some blankLeaf := by
    decide +kernel
  obtain ⟨v, hDecode⟩ := Option.isSome_iff_exists.mp hOpens
  have hHash :=
    h wordCommitter (leafOffer 6 blankLeaf) ⟨Word.zero⟩ v
      (toOption_eq_some.mp hDecode)
  exact hOther v hDecode (toOption_eq_some.mpr hHash)

end SealedGraph.Committer
