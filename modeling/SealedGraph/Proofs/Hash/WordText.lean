import SealedGraph.Hash.WordJson

/-!
# Words and their texts

The digits of bytes are read back as these bytes, and the text of a word as
that word.

## Main results

* `Hex.decode_digits`: what is written in hexadecimal is read back.
* `Word.ofHex_text`, `Word.ofJson?_json`: so is every word.
-/

namespace SealedGraph

namespace Hex

theorem value?_digit : ∀ n < 16, value? (digit n) = some n := by
  decide

/-- Every digit takes up one byte. -/
theorem length_utf8_digit :
    ∀ n < 16, (String.utf8EncodeChar (digit n)).length = 1 := by
  decide

theorem readPairs_digits (bytes : Bytes) :
    ∀ position, readPairs position (digits bytes) = .ok bytes := by
  induction bytes with
  | nil => intro position; rfl
  | cons byte rest ih =>
      intro position
      have hByte := byte.toNat_lt
      have hSame : byte.toNat / 16 * 16 + byte.toNat % 16 = byte.toNat := by
        omega
      rw [digits, readPairs, value?_digit _ (by omega),
        value?_digit _ (by omega)]
      simp only [ih, Except.map, hSame, UInt8.ofNat_toNat]

theorem length_utf8_digits (bytes : Bytes) :
    ((digits bytes).flatMap String.utf8EncodeChar).length =
      2 * bytes.length := by
  induction bytes with
  | nil => rfl
  | cons byte rest ih =>
      have hByte := byte.toNat_lt
      rw [digits, List.flatMap_cons, List.flatMap_cons, List.length_append,
        List.length_append, length_utf8_digit _ (by omega),
        length_utf8_digit _ (by omega), ih, List.length_cons]
      omega

theorem decode_digits (bytes : Bytes) : decode (digits bytes) = .ok bytes := by
  have hEven :
      ¬ ((digits bytes).flatMap String.utf8EncodeChar).length % 2 = 1 := by
    rw [length_utf8_digits]
    omega
  rw [decode, if_neg hEven, readPairs_digits]

end Hex

namespace Word

theorem ofHex_text (word : Word) : ofHex word.text = .ok word := by
  have hDigits :
      Hex.dropAnyMarker word.text.toList = Hex.digits word.bytes := by
    simp [text, toHex, Hex.encode, Hex.dropAnyMarker]
  have hWord : ofBytes? word.bytes = some word := dif_pos word.length_bytes
  simp only [ofHex, hDigits, Hex.decode_digits, bind, Except.bind, hWord]

theorem ofJson?_json (word : Word) : ofJson? word.json = some word := by
  have hText : (ofHex word.text).toOption = some word := by rw [ofHex_text]; rfl
  exact hText

end Word
end SealedGraph
