/-!
# Byte strings

Everything that is hashed, cut into blocks or signed is a byte string, and a
byte string is a list of bytes.  Texts enter through their UTF-8 form, which
determines them.

## Main results

* `Bytes.toText?_ofText`: the UTF-8 form of a text reads back as that text.
* `Bytes.ofText_injective`: different texts have different UTF-8 forms.
-/

namespace SealedGraph

/-- A byte string. -/
abbrev Bytes := List UInt8

namespace Bytes

/-- The UTF-8 form of a text. -/
def ofText (text : String) : Bytes := text.toByteArray.data.toList

/-- The text that a byte string is the UTF-8 form of, if there is one. -/
def toText? (bytes : Bytes) : Option String := String.fromUTF8? ⟨bytes.toArray⟩

theorem toText?_ofText (text : String) : toText? (ofText text) = some text := by
  unfold toText? ofText String.fromUTF8?
  rw [Array.toArray_toList, dif_pos text.isValidUTF8]
  rfl

theorem ofText_injective {s t : String} (h : ofText s = ofText t) : s = t := by
  have hSome : some s = some t := by
    rw [← toText?_ofText s, ← toText?_ofText t, h]
  exact Option.some.inj hSome

/-- The number whose big-endian base-256 digits are the bytes. -/
def toNat (bytes : Bytes) : Nat :=
  bytes.foldl (fun value byte => value * 256 + byte.toNat) 0

/-- The `width` lowest base-256 digits of a number, most significant first. -/
def ofNat : (width value : Nat) → Bytes
  | 0, _ => []
  | width + 1, value => ofNat width (value / 256) ++ [UInt8.ofNat value]

@[simp] theorem length_ofNat (width value : Nat) :
    (ofNat width value).length = width := by
  induction width generalizing value with
  | zero => rfl
  | succ width ih => simp [ofNat, ih]

end Bytes
end SealedGraph
