import SealedGraph.Exchange.Offer
import SealedGraph.Merkle.Size
import SealedGraph.Private.Committer

/-!
# Selling private data

The seller masks all nodes of the tree of a private entry, and adds the root
of a tree on the masked nodes.  The buyer checks an offer without the key, and
opens it with the key: the leaves come out, the tree is built anew on them,
and every node must be the one that was unmasked.
-/

namespace SealedGraph.Committer

/-! ## The seller -/

/-- The commitment to a payload that stands in the given leaves. -/
def commitmentTo (length : UInt64) (tree : Merkle.Tree) (key : ExchangeKey) :
    Commitment :=
  let encoded := key.blind tree.nodes
  { length := length
    count := UInt64.ofNat tree.leafCount
    key := key
    encoded := encoded
    privateRoot := tree.root
    encodedRoot := (Merkle.Tree.build encoded).root }

/-- Makes the commitment to an entry under a key.  An entry that carries a hash
must be committed to by that hash. -/
def encode (c : Committer) (entry : PrivateEntry) (key : ExchangeKey) :
    Except Error Commitment := do
  let payload ← payload entry
  let leaves ← Blocks.splitLeaves payload c.privacy
  let tree := Merkle.Tree.build leaves
  let commitment := commitmentTo (UInt64.ofNat payload.length) tree key
  match entry.hash with
  | none => return commitment
  | some published =>
      if published = tree.root then return commitment
      else .error (.mismatch (.staleHash tree.root published))

/-! ## The buyer -/

/-- Checks an offer before paying: its numbers agree with each other and with
the list of masked nodes, and the list has the announced root. -/
def verify (c : Committer) (offer : Offer) : Except Error Unit :=
  let expected := Blocks.announcedCount offer.length c.privacy
  if offer.count ≠ expected then
    .error (.mismatch (.announcedCount offer.length expected offer.count))
  else if offer.encoded.length < offer.count.toNat then
    .error (.mismatch (.tooFewNodes offer.count offer.encoded.length))
  else
    let nodes := Merkle.nodeCountFor offer.count
    if offer.encoded.length ≠ nodes.toNat then
      .error (.mismatch (.nodeCount nodes.toNat offer.encoded.length))
    else
      let root := (Merkle.Tree.build offer.encoded).root
      if root ≠ offer.encodedRoot then
        .error (.mismatch (.encodedRoot root offer.encodedRoot))
      else .ok ()

/-- The first place where two lists of words differ, counted from `index`; the
longer list may go on. -/
def firstDifference? : (index : Nat) → List Word → List Word → Option Nat
  | index, a :: as, b :: bs =>
      if a = b then firstDifference? (index + 1) as bs else some index
  | _, _, _ => none

/-- The first words of a list, if there are so many. -/
def firstWords? (count : Nat) (words : List Word) : Option (List Word) :=
  if count ≤ words.length then some (words.take count) else none

/-- Unmasks nodes, and rebuilds the tree on as many leaves as are announced.
The unmasked nodes must be those of the tree. -/
def recoverTree (encoded : List Word) (key : ExchangeKey) (count : UInt64) :
    Except Error Merkle.Tree :=
  if count = 0 ∨ encoded.length < count.toNat then
    .error (.mismatch (.tooFewNodes count encoded.length))
  else
    let recovered := key.blind encoded
    match firstWords? count.toNat recovered with
    | none => .error .outOfRange
    | some leaves =>
        let tree := Merkle.Tree.build leaves
        if tree.nodeCount ≠ recovered.length then
          .error (.mismatch (.nodeCount tree.nodeCount recovered.length))
        else
          match firstDifference? 0 tree.nodes recovered with
          | some index => .error (.mismatch (.node index))
          | none => .ok tree

/-- The data whose payload of an announced length stands in the leaves of a
tree. -/
def openTree (c : Committer) (tree : Merkle.Tree) (length : UInt64) :
    Except Error Json := do
  let payload ← Blocks.join tree.leaves length c.privacy
  match Json.parseBytes? payload with
  | some data => return data
  | none => .error (.mismatch .notJson)

/-- Unmasks nodes and takes the data out of the leaves. -/
def decode (c : Committer) (encoded : List Word) (key : ExchangeKey)
    (count length : UInt64) :
    Except Error Json := do
  let tree ← recoverTree encoded key count
  c.openTree tree length

/-- Like `decode`, and the tree must have the published root. -/
def decodeVerified (c : Committer) (encoded : List Word) (key : ExchangeKey)
    (count length : UInt64) (published : Word) : Except Error Json := do
  let tree ← recoverTree encoded key count
  if tree.root ≠ published
    then .error (.mismatch (.privateRoot tree.root published))
  else c.openTree tree length

/-- Checks an offer and opens it with the key. -/
def decodeOffer (c : Committer) (offer : Offer) (key : ExchangeKey) :
    Except Error Json := do
  c.verify offer
  c.decodeVerified offer.encoded key offer.count offer.length offer.privateRoot

end SealedGraph.Committer
