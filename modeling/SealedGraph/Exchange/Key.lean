import SealedGraph.Error
import SealedGraph.Hash.WordJson

/-!
# Exchange keys

A key masks the nodes of a tree.  Each position has its own pad, the digest of
the key followed by the position as a 256-bit number; masking twice with one
key changes nothing.

## Main results

* `Word.xor_xor_cancel`: a pad that is applied twice cancels.
* `ExchangeKey.blind_blind`: masking is its own inverse.
-/

namespace SealedGraph

/-- A key that masks a commitment until the seller reveals it. -/
structure ExchangeKey where
  word : Word
deriving DecidableEq

namespace ExchangeKey

/-- Reads 64 digits of either case, after at most one `0x` or `0X`. -/
def ofText (text : String) : Except Error ExchangeKey :=
  match Word.ofHex text with
  | .ok word => .ok ⟨word⟩
  | .error fault => .error (.hash (.key fault))

/-- The digits after `0x`. -/
def text (key : ExchangeKey) : String := key.word.text

def json (key : ExchangeKey) : Json := .string key.text

def ofJson? (json : Json) : Option ExchangeKey := do
  let text ← json.string?
  (ofText text).toOption

/-- What is hashed for the pad of a position. -/
def padInput (key : ExchangeKey) (position : Nat) : Bytes :=
  key.word.bytes ++ Bytes.ofNat 32 position

/-- The pad of a position. -/
def pad (key : ExchangeKey) (position : Nat) : Word :=
  keccak256 (key.padInput position)

/-- Masks nodes, the first of which has the given position. -/
def blindFrom (key : ExchangeKey) : (position : Nat) → List Word → List Word
  | _, [] => []
  | position, node :: rest =>
      node.xor (key.pad position) :: key.blindFrom (position + 1) rest

/-- Masks the nodes of a tree. -/
def blind (key : ExchangeKey) (nodes : List Word) : List Word :=
  key.blindFrom 0 nodes

end ExchangeKey

/-! ## Masking is its own inverse -/

private theorem zipWith_xor_cancel (xs ys : Bytes)
    (hLen : xs.length = ys.length) :
    List.zipWith (· ^^^ ·) (List.zipWith (· ^^^ ·) xs ys) ys = xs := by
  induction xs generalizing ys with
  | nil => simp
  | cons x xs ih =>
      cases ys with
      | nil => simp at hLen
      | cons y ys =>
          have hTail : xs.length = ys.length := by simpa using hLen
          have hByte : x ^^^ y ^^^ y = x := by
            rw [UInt8.xor_assoc, UInt8.xor_self, UInt8.xor_zero]
          simp only [List.zipWith_cons_cons, hByte, ih ys hTail]

theorem Word.xor_xor_cancel (a b : Word) : (a.xor b).xor b = a :=
  Word.ext
    (zipWith_xor_cancel a.bytes b.bytes
      (by rw [a.length_bytes, b.length_bytes]))

namespace ExchangeKey

theorem blindFrom_blindFrom (key : ExchangeKey) (nodes : List Word) :
    ∀ position,
      key.blindFrom position (key.blindFrom position nodes) = nodes := by
  induction nodes with
  | nil => intro position; rfl
  | cons node rest ih =>
      intro position
      simp [blindFrom, Word.xor_xor_cancel, ih]

theorem blind_blind (key : ExchangeKey) (nodes : List Word) :
    key.blind (key.blind nodes) = nodes :=
  blindFrom_blindFrom key nodes 0

@[simp] theorem length_blindFrom (key : ExchangeKey) (nodes : List Word) :
    ∀ position, (key.blindFrom position nodes).length = nodes.length := by
  induction nodes with
  | nil => intro position; rfl
  | cons node rest ih => intro position; simp [blindFrom, ih]

end ExchangeKey
end SealedGraph
