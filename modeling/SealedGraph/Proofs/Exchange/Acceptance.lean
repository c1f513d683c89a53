import Mathlib
import SealedGraph.Proofs.Exchange.Opening

/-!
# What a buyer accepts

Opening masked nodes rebuilds the tree on as many of them as are announced
leaves, and compares it with the rest.  Nothing passes but what a seller would
have made: the masked nodes of the tree on the leaves of a payload that has
the announced length.  The payload itself need only be some JSON text.

## Main results

* `recoverTree_eq_ok`: which lists of words a tree is recovered from.
* `openTree_eq_ok`: which payloads the leaves of a tree are opened to.
* `decode_eq_ok`: opening succeeds on sealed payloads, and on nothing else.
* `seals_of_decodeOffer`: what stands behind an offer that was opened.
-/

namespace SealedGraph.Committer

open Merkle

variable {c : Committer} {encoded : List Word} {key : ExchangeKey}
  {count length : UInt64}

/-! ## The tree -/

/-- Lists of one length that do not differ are the same. -/
theorem eq_of_firstDifference?_eq_none {xs : List Word} :
    ∀ {index : Nat} {ys : List Word},
    xs.length = ys.length → firstDifference? index xs ys = none → xs = ys := by
  induction xs with
  | nil =>
      intro index ys hLen _
      exact (List.length_eq_zero_iff.mp hLen.symm).symm
  | cons x xs ih =>
      intro index ys hLen hNone
      cases ys with
      | nil => cases hLen
      | cons y ys =>
          rw [firstDifference?] at hNone
          by_cases hHead : x = y
          · rw [if_pos hHead] at hNone
            rw [hHead, ih (Nat.succ.inj hLen) hNone]
          · rw [if_neg hHead] at hNone
            cases hNone

/-- A tree is recovered from its own masked nodes, and from nothing else. -/
theorem recoverTree_eq_ok {tree : Tree} :
    recoverTree encoded key count = .ok tree ↔
      0 < tree.leafCount ∧ tree.leafCount = count.toNat ∧
        encoded = key.blind tree.nodes := by
  constructor
  · intro h
    rw [recoverTree] at h
    by_cases hFew : count = 0 ∨ encoded.length < count.toNat
    · simp [if_pos hFew] at h
    · have hCount : 0 < count.toNat :=
        Nat.pos_of_ne_zero fun hZero => hFew (.inl (UInt64.toNat_inj.mp hZero))
      have hEnough : count.toNat ≤ (key.blind encoded).length := by
        rw [length_blind]
        exact Nat.le_of_not_lt fun hLt => hFew (.inr hLt)
      rw [if_neg hFew] at h
      simp only [firstWords?, if_pos hEnough] at h
      split at h
      · cases h
      · next hNodes =>
        cases hDifference : firstDifference? 0
            (Tree.build ((key.blind encoded).take count.toNat)).nodes
              (key.blind encoded) with
        | some index => simp [hDifference] at h
        | none =>
            -- All nodes are compared only because there are as many as the tree
            -- has.
            have hSame :=
              eq_of_firstDifference?_eq_none (not_not.mp hNodes) hDifference
            simp only [hDifference] at h
            cases h
            have hLeaves :
                ((key.blind encoded).take count.toNat).length =
                  count.toNat := by
              rw [List.length_take]
              exact Nat.min_eq_left hEnough
            refine ⟨?_, hLeaves, ?_⟩
            · show 0 < ((key.blind encoded).take count.toNat).length
              rw [hLeaves]
              exact hCount
            · rw [hSame, key.blind_blind]
  · rintro ⟨hPos, hCount, hEncoded⟩
    rw [tree.eq_build] at hEncoded
    rw [hEncoded, recoverTree_blind hPos key hCount.symm, ← tree.eq_build]

/-! ## The payload -/

/-- The leaves of a tree are opened to the value of a payload of which they are
the leaves. -/
theorem openTree_eq_ok {tree : Tree} {v : Json} :
    c.openTree tree length = .ok v ↔
      ∃ payload, payload.length = length.toNat ∧
        Blocks.splitLeaves payload c.privacy = .ok tree.leaves ∧
        Json.parseBytes? payload = some v := by
  simp only [openTree, bind_eq_ok]
  constructor
  · rintro ⟨payload, hJoin, hRead⟩
    obtain ⟨hLength, hSplit⟩ := Blocks.splitLeaves_of_join c.valid hJoin
    refine ⟨payload, hLength, hSplit, ?_⟩
    cases hParse : Json.parseBytes? payload with
    | none => simp [hParse] at hRead
    | some data =>
        simp only [hParse] at hRead
        cases hRead
        rfl
  · rintro ⟨payload, hLength, hSplit, hParse⟩
    refine ⟨payload, Blocks.join_splitLeaves c.valid hSplit hLength.symm, ?_⟩
    rw [hParse]
    rfl

/-! ## Sealed payloads -/

/-- A list of words with an announced count and length is a payload that was
sealed: it holds the masked nodes of the tree on the leaves of the payload. -/
structure Seals (c : Committer) (key : ExchangeKey) (payload : Bytes)
    (leaves encoded : List Word) (count length : UInt64) : Prop where
  split : Blocks.splitLeaves payload c.privacy = .ok leaves
  length_eq : payload.length = length.toNat
  count_eq : leaves.length = count.toNat
  encoded_eq : encoded = key.blind (Tree.build leaves).nodes

/-- A tree with a property is recovered and opened to a value exactly when a
payload was sealed that is a text of the value, and its tree has the
property. -/
theorem opens_iff (c : Committer) (encoded : List Word) (key : ExchangeKey)
    (count length : UInt64) (v : Json) (P : Tree → Prop) :
    (∃ tree, recoverTree encoded key count = .ok tree ∧ P tree ∧
      c.openTree tree length = .ok v) ↔
      ∃ payload leaves, c.Seals key payload leaves encoded count length ∧
        Json.parseBytes? payload = some v ∧ P (Tree.build leaves) := by
  constructor
  · rintro ⟨tree, hTree, hP, hOpen⟩
    obtain ⟨_, hCount, hEncoded⟩ := recoverTree_eq_ok.mp hTree
    obtain ⟨payload, hLength, hSplit, hParse⟩ := openTree_eq_ok.mp hOpen
    rw [tree.eq_build] at hEncoded hP
    exact ⟨payload, tree.leaves, ⟨hSplit, hLength, hCount, hEncoded⟩,
      hParse, hP⟩
  · rintro ⟨payload, leaves, hSeals, hParse, hP⟩
    have hPos := Blocks.splitLeaves_pos c.valid hSeals.split
    exact ⟨Tree.build leaves,
      recoverTree_eq_ok.mpr ⟨hPos, hSeals.count_eq, hSeals.encoded_eq⟩, hP,
      openTree_eq_ok.mpr ⟨payload, hSeals.length_eq, hSeals.split, hParse⟩⟩

theorem decodeVerified_eq_ok {v : Json} {published : Word} :
    c.decodeVerified encoded key count length published = .ok v ↔
      ∃ payload leaves, c.Seals key payload leaves encoded count length ∧
        Json.parseBytes? payload = some v ∧
          (Tree.build leaves).root = published := by
  rw [← opens_iff c encoded key count length v fun tree =>
    tree.root = published, decodeVerified]
  simp only [bind_eq_ok]
  refine exists_congr fun tree => and_congr_right fun _ => ?_
  by_cases hRoot : tree.root = published
  · rw [if_neg (not_not.mpr hRoot), and_iff_right hRoot]
  · simp [hRoot]

/-- Opening succeeds exactly on sealed payloads that are texts; the published
root, where one is asked for, is then that of the sealed tree. -/
theorem decode_eq_ok (c : Committer) (encoded : List Word) (key : ExchangeKey)
    (count length : UInt64) (v : Json) :
    (c.decode encoded key count length = .ok v ↔
      ∃ payload leaves, c.Seals key payload leaves encoded count length ∧
        Json.parseBytes? payload = some v) ∧
    ∀ published, c.decodeVerified encoded key count length published = .ok v ↔
      ∃ payload leaves, c.Seals key payload leaves encoded count length ∧
        Json.parseBytes? payload = some v ∧
          (Tree.build leaves).root = published := by
  refine ⟨?_, fun published => decodeVerified_eq_ok⟩
  have hOpens := opens_iff c encoded key count length v fun _ => True
  simp only [true_and, and_true] at hOpens
  rw [← hOpens, decode]
  simp only [bind_eq_ok]

/-- Behind an offer that was opened stands a sealed payload, with the announced
root. -/
theorem seals_of_decodeOffer {o : Offer} {v : Json}
    (h : c.decodeOffer o key = .ok v) :
    ∃ payload leaves, c.Seals key payload leaves o.encoded o.count o.length ∧
      Json.parseBytes? payload = some v ∧
        (Tree.build leaves).root = o.privateRoot := by
  obtain ⟨_, _, hDecoded⟩ := bind_eq_ok.mp h
  exact decodeVerified_eq_ok.mp hDecoded

end SealedGraph.Committer
