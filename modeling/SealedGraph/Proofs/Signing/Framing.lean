import Mathlib
import SealedGraph.Proofs.Json.Unambiguous
import SealedGraph.Proofs.Merkle.Binding
import SealedGraph.Signing.Message

/-!
# What is hashed for a message

The length of a message stands in decimal right before the message, which may
itself begin with digits.  Nothing marks where the length ends, so that what is
hashed for one message can begin what is hashed for a longer one.

But a longer message has no shorter length in decimal, and takes up more bytes
together with it.  The same bytes are therefore hashed only for messages of one
length, and then the same bytes stand before both.

## Main results

* `length_framed`: how many bytes are hashed for a message.
* `framed_injective`: different bytes are hashed for different messages.
* `digest_binds`: messages with one digest are the same, or collide.
-/

namespace SealedGraph

namespace Bytes

theorem ofText_append (s t : String) :
    ofText (s ++ t) = ofText s ++ ofText t := by
  rw [← String.ofList_toList (s := s), ← String.ofList_toList (s := t),
    ← String.ofList_append, ofText_ofList, ofText_ofList, ofText_ofList,
    List.flatMap_append]

end Bytes

namespace Message

/-! ## The length in decimal -/

/-- A number in decimal. -/
def decimal (n : Nat) : Bytes :=
  (Nat.toDigits 10 n).flatMap String.utf8EncodeChar

theorem framed_eq (message : Bytes) :
    framed message = Bytes.ofText salutation ++ decimal message.length ++
      message := by
  rw [framed, Bytes.ofText_append, Nat.toString_eq_ofList_toDigits,
    Bytes.ofText_ofList]
  rfl

/-- Every digit takes up one byte. -/
theorem length_decimal (n : Nat) :
    (decimal n).length = (Nat.toDigits 10 n).length := by
  have hByte : ∀ c ∈ Nat.toDigits 10 n,
      (String.utf8EncodeChar c).length = 1 := by
    intro c hc
    have hDigit := Nat.isDigit_of_mem_toDigits (by decide) (by decide) hc
    have hAscii : c.toNat ≤ 57 := (Char.isDigit_iff_toNat.mp hDigit).2
    rw [String.length_utf8EncodeChar, Char.utf8Size_eq_one_iff,
      UInt32.le_iff_toNat_le]
    exact Nat.le_trans hAscii (by decide)
  rw [decimal, List.length_flatMap, List.map_congr_left hByte, List.map_const',
    List.sum_replicate, smul_eq_mul, Nat.mul_one]

/-- A greater number has no fewer digits. -/
theorem length_decimal_mono {m n : Nat} (h : m ≤ n) :
    (decimal m).length ≤ (decimal n).length := by
  have hFit : n < 10 ^ (Nat.toDigits 10 n).length :=
    (Nat.length_toDigits_le_iff (by decide) Nat.length_toDigits_pos).mp
      (Nat.le_refl _)
  rw [length_decimal, length_decimal]
  exact (Nat.length_toDigits_le_iff (by decide) Nat.length_toDigits_pos).mpr
    (Nat.lt_of_le_of_lt h hFit)

/-! ## The frame -/

theorem length_framed (message : Bytes) :
    (framed message).length =
      (Bytes.ofText salutation).length + (decimal message.length).length +
        message.length := by
  rw [framed_eq, List.length_append, List.length_append]

/-- More bytes are hashed for a longer message. -/
theorem length_framed_lt {a b : Bytes} (h : a.length < b.length) :
    (framed a).length < (framed b).length := by
  have hDigits := length_decimal_mono (Nat.le_of_lt h)
  rw [length_framed, length_framed]
  omega

theorem framed_injective : Function.Injective framed := by
  intro a b h
  have hLength : a.length = b.length := by
    have hFrames := congrArg List.length h
    by_contra hNe
    rcases Nat.lt_or_gt_of_ne hNe with hLt | hGt
    · exact absurd hFrames (Nat.ne_of_lt (length_framed_lt hLt))
    · exact absurd hFrames (Nat.ne_of_gt (length_framed_lt hGt))
  rw [framed_eq, framed_eq, hLength] at h
  exact List.append_cancel_left h

/-- The frame of a message of one digit begins that of a message of twelve
bytes. -/
example : framed [50] <+: framed (List.replicate 12 0) := by decide

/-! ## Digests -/

/-- The bytes that are hashed for a message tell the message.  So messages have
one digest only if they are the same, or the bytes that are hashed for them
collide. -/
theorem digest_binds (a b : Bytes) :
    (framed a = framed b ↔ a = b) ∧
      (digest a = digest b ↔ a = b ∨ Collision [framed a, framed b]) := by
  have hFrames : framed a = framed b ↔ a = b := framed_injective.eq_iff
  refine ⟨hFrames, ?_⟩
  rw [collision_pair]
  constructor
  · intro hDigest
    by_cases hSame : a = b
    · exact .inl hSame
    · exact .inr ⟨mt hFrames.mp hSame, hDigest⟩
  · rintro (rfl | ⟨_, hDigest⟩)
    · rfl
    · exact hDigest

end Message
end SealedGraph
