import SealedGraph.Proofs.Hash.WordText

/-!
# Spellings of bytes

Bytes have many texts: each digit may be of either case, and a marker may stand
before the digits.  Reading takes exactly these texts, and gives the bytes that
they spell.  No digit is the second character of a marker, so that a text with
a marker is not also one without.

## Main results

* `Hex.value?_eq_some`: which characters are digits.
* `Hex.decode_ok_iff`: which digits are read as which bytes.
* `Hex.decode_dropMarker_eq_ok`, `Hex.decode_dropAnyMarker_eq_ok`: which texts
  are, with a marker or without.
* `Word.ofHex_eq_ok`: which texts are read as a word.
-/

namespace SealedGraph

namespace Hex

/-- A text spells bytes if it is one of the markers and the digits of the bytes,
in whatever case. -/
def Spells (markers : List String) (text : String) (bytes : Bytes) : Prop :=
  ∃ marker ∈ markers, ∃ digits : String, text = marker ++ digits ∧
    digits.toLower = encode bytes

/-! ## Digits of either case -/

private theorem value?_ofNat : ∀ n < 128, ∀ v < 16,
    value? (Char.ofNat n) = some v ↔ (Char.ofNat n).toLower = digit v := by
  decide +kernel

private theorem value?_ofNat_lt :
    ∀ n < 128, ∀ v ∈ value? (Char.ofNat n), v < 16 := by
  decide +kernel

private theorem toNat_digit_lt : ∀ v < 16, (digit v).toNat < 128 := by
  decide

/-- A character that is no digit of either case, nor a letter of another. -/
private theorem value?_of_not_ascii {c : Char} (h : 128 ≤ c.toNat) :
    value? c = none ∧ c.toLower = c := by
  have hAbove : ∀ d : Char, d.toNat < 128 → ¬ c ≤ d := fun d hd hLe => by
    have hNat : c.toNat ≤ d.toNat :=
      UInt32.le_iff_toNat_le.mp (Char.le_def.mp hLe)
    omega
  constructor
  · rw [value?, if_neg fun h => hAbove '9' (by decide) h.2,
      if_neg fun h => hAbove 'f' (by decide) h.2,
      if_neg fun h => hAbove 'F' (by decide) h.2]
  · exact dif_neg fun h => hAbove 'Z' (by decide) h.2

theorem value?_eq_some {c : Char} {v : Nat} :
    value? c = some v ↔ v < 16 ∧ c.toLower = digit v := by
  by_cases hAscii : c.toNat < 128
  · have hDigit := value?_ofNat c.toNat hAscii
    have hBound := value?_ofNat_lt c.toNat hAscii
    rw [Char.ofNat_toNat] at hDigit hBound
    constructor
    · intro h
      exact ⟨hBound v h, (hDigit v (hBound v h)).mp h⟩
    · rintro ⟨hv, h⟩
      exact (hDigit v hv).mpr h
  · obtain ⟨hNone, hSame⟩ := value?_of_not_ascii (Nat.not_lt.mp hAscii)
    rw [hNone, hSame]
    constructor
    · intro h
      cases h
    · rintro ⟨hv, rfl⟩
      exact absurd (toNat_digit_lt v hv) hAscii

theorem toNat_lt_of_value? {c : Char} {v : Nat} (h : value? c = some v) :
    c.toNat < 128 := by
  refine Nat.lt_of_not_le fun hLe => ?_
  rw [(value?_of_not_ascii hLe).1] at h
  cases h

/-- A digit takes up one byte. -/
theorem length_utf8_of_value? {c : Char} {v : Nat} (h : value? c = some v) :
    (String.utf8EncodeChar c).length = 1 := by
  have hSmall :
      ∀ n < 128, (String.utf8EncodeChar (Char.ofNat n)).length = 1 := by
    decide +kernel
  rw [← Char.ofNat_toNat c]
  exact hSmall c.toNat (toNat_lt_of_value? h)

/-! ## Digits of bytes -/

@[simp] theorem length_digits (bytes : Bytes) :
    (digits bytes).length = 2 * bytes.length := by
  induction bytes with
  | nil => rfl
  | cons byte rest ih =>
      rw [digits, List.length_cons, List.length_cons, List.length_cons, ih]
      omega

/-- Two digits are read as a byte exactly when they are its digits, but for
their case. -/
theorem readPairs_pair_eq_ok {high low : Char} {rest : List Char}
    {position : Nat} {byte : UInt8} {bytes : Bytes} :
    readPairs position (high :: low :: rest) = .ok (byte :: bytes) ↔
      high.toLower = digit (byte.toNat / 16) ∧
        low.toLower = digit (byte.toNat % 16) ∧
        readPairs (position + 2) rest = .ok bytes := by
  have hByte := byte.toNat_lt
  constructor
  · intro h
    rw [readPairs] at h
    split at h
    · cases h
    · cases h
    · next h₁ h₂ hHigh hLow =>
      obtain ⟨h₁Lt, hHighLower⟩ := value?_eq_some.mp hHigh
      obtain ⟨h₂Lt, hLowLower⟩ := value?_eq_some.mp hLow
      cases hRest : readPairs (position + 2) rest with
      | error fault =>
          rw [hRest] at h
          cases h
      | ok others =>
          rw [hRest] at h
          cases h
          have hNat : (UInt8.ofNat (h₁ * 16 + h₂)).toNat = h₁ * 16 + h₂ :=
            UInt8.toNat_ofNat_of_lt' (show h₁ * 16 + h₂ < 256 by omega)
          rw [hNat, show (h₁ * 16 + h₂) / 16 = h₁ by omega,
            show (h₁ * 16 + h₂) % 16 = h₂ by omega]
          exact ⟨hHighLower, hLowLower, rfl⟩
  · rintro ⟨hHigh, hLow, hRest⟩
    have hSplit : byte.toNat / 16 * 16 + byte.toNat % 16 = byte.toNat := by
      omega
    rw [readPairs, value?_eq_some.mpr ⟨by omega, hHigh⟩,
      value?_eq_some.mpr ⟨by omega, hLow⟩]
    simp only [hRest, Except.map, hSplit, UInt8.ofNat_toNat]

theorem readPairs_pair_ne_nil (high low : Char) (rest : List Char)
    (position : Nat) :
    readPairs position (high :: low :: rest) ≠ .ok [] := by
  intro h
  rw [readPairs] at h
  split at h
  · cases h
  · cases h
  · cases hRest : readPairs (position + 2) rest <;> rw [hRest] at h <;> cases h

theorem readPairs_eq_ok : ∀ {cs : List Char} {position : Nat} {bytes : Bytes},
    readPairs position cs = .ok bytes ↔ cs.map Char.toLower = digits bytes
  | [], _, [] => by simp [readPairs, digits]
  | [], _, _ :: _ => by simp [readPairs, digits]
  | [_], _, [] => by
      rw [readPairs]
      split <;> simp [digits]
  | [_], _, _ :: _ => by
      rw [readPairs]
      split <;> simp [digits]
  | high :: low :: rest, position, [] =>
      ⟨fun h => absurd h (readPairs_pair_ne_nil high low rest position), nofun⟩
  | high :: low :: rest, position, byte :: bytes => by
      have hRest : readPairs (position + 2) rest = .ok bytes ↔
          rest.map Char.toLower = digits bytes := readPairs_eq_ok
      rw [readPairs_pair_eq_ok, hRest, List.map_cons, List.map_cons, digits,
        List.cons.injEq, List.cons.injEq]

/-- What is spelled by digits is digits. -/
theorem exists_value? {cs : List Char} {bytes : Bytes}
    (h : cs.map Char.toLower = digits bytes) :
    ∀ c ∈ cs, ∃ v, value? c = some v := by
  intro c hc
  have hLower : c.toLower ∈ digits bytes := h ▸ List.mem_map_of_mem hc
  clear h hc
  induction bytes with
  | nil => cases hLower
  | cons byte rest ih =>
      have hByte := byte.toNat_lt
      rw [digits, List.mem_cons, List.mem_cons] at hLower
      rcases hLower with hHigh | hLow | hRest
      · exact ⟨_, value?_eq_some.mpr ⟨by omega, hHigh⟩⟩
      · exact ⟨_, value?_eq_some.mpr ⟨by omega, hLow⟩⟩
      · exact ih hRest

/-- Every digit takes up one byte, so that the length is that of the digits. -/
theorem length_utf8_of_digits {cs : List Char}
    (h : ∀ c ∈ cs, ∃ v, value? c = some v) :
    (cs.flatMap String.utf8EncodeChar).length = cs.length := by
  induction cs with
  | nil => rfl
  | cons c cs ih =>
      obtain ⟨⟨v, hv⟩, hRest⟩ := List.forall_mem_cons.mp h
      rw [List.flatMap_cons, List.length_append,
        length_utf8_of_value? hv, ih hRest, List.length_cons, Nat.add_comm]

/-- Digits are read as bytes exactly when they are those of the bytes, but for
their case. -/
theorem decode_ok_iff {cs : List Char} {bytes : Bytes} :
    decode cs = .ok bytes ↔ cs.map Char.toLower = digits bytes := by
  rw [decode]
  by_cases hOdd : (cs.flatMap String.utf8EncodeChar).length % 2 = 1
  · rw [if_pos hOdd]
    constructor
    · intro h
      cases h
    · intro h
      have hLength := congrArg List.length h
      rw [List.length_map, length_digits] at hLength
      rw [length_utf8_of_digits (exists_value? h)] at hOdd
      omega
  · rw [if_neg hOdd, readPairs_eq_ok]

/-! ## Markers -/

section Markers

variable {text : String} {bytes : Bytes}

/-- Digits do not begin with a marker, of which the second character is no
digit. -/
theorem ne_of_digits {cs rest : List Char} {c d : Char}
    (h : cs.map Char.toLower = digits bytes) (hd : value? d = none) :
    cs ≠ c :: d :: rest := by
  rintro rfl
  obtain ⟨v, hv⟩ := exists_value? h d (by simp)
  rw [hd] at hv
  cases hv

/-- A text without a marker that is left out is one of digits alone. -/
private theorem spells_iff {markers : List String} :
    Spells markers text bytes ↔
      ∃ marker ∈ markers, ∃ cs, text.toList = marker.toList ++ cs ∧
        cs.map Char.toLower = digits bytes := by
  refine exists_congr fun marker => and_congr_right fun _ => ⟨?_, ?_⟩
  · rintro ⟨written, rfl, hDigits⟩
    refine ⟨written.toList, String.toList_append, ?_⟩
    rw [← String.toList_map, show written.map Char.toLower = encode bytes
      from hDigits, encode, String.toList_ofList]
  · rintro ⟨cs, hText, hDigits⟩
    refine ⟨String.ofList cs, String.toList_inj.mp ?_, String.toList_inj.mp ?_⟩
    · rw [String.toList_append, String.toList_ofList, hText]
    · rw [show (String.ofList cs).toLower = (String.ofList cs).map Char.toLower
        from rfl, String.toList_map, String.toList_ofList, hDigits, encode,
        String.toList_ofList]

/-- Texts are read with `0x` or without. -/
theorem decode_dropMarker_eq_ok :
    decode (dropMarker text.toList) = .ok bytes ↔
      Spells ["", "0x"] text bytes := by
  rw [decode_ok_iff, spells_iff]
  simp only [List.mem_cons, List.not_mem_nil, or_false, exists_eq_or_imp,
    exists_eq_left]
  generalize text.toList = cs
  constructor
  · intro h
    unfold dropMarker at h
    split at h
    · next rest => exact .inr ⟨rest, rfl, h⟩
    · exact .inl ⟨cs, rfl, h⟩
  · rintro (⟨rest, hText, h⟩ | ⟨rest, hText, h⟩)
    · obtain rfl : cs = rest := hText
      unfold dropMarker
      split
      · next rest => exact absurd rfl (ne_of_digits h (by decide))
      · exact h
    · obtain rfl : cs = '0' :: 'x' :: rest := hText
      exact h

/-- Texts are read with `0x`, with `0X`, or without a marker. -/
theorem decode_dropAnyMarker_eq_ok :
    decode (dropAnyMarker text.toList) = .ok bytes ↔
      Spells ["", "0x", "0X"] text bytes := by
  rw [decode_ok_iff, spells_iff]
  simp only [List.mem_cons, List.not_mem_nil, or_false, exists_eq_or_imp,
    exists_eq_left]
  generalize text.toList = cs
  constructor
  · intro h
    unfold dropAnyMarker at h
    split at h
    · next rest => exact .inr (.inl ⟨rest, rfl, h⟩)
    · next rest => exact .inr (.inr ⟨rest, rfl, h⟩)
    · exact .inl ⟨cs, rfl, h⟩
  · rintro (⟨rest, hText, h⟩ | ⟨rest, hText, h⟩ | ⟨rest, hText, h⟩)
    · obtain rfl : cs = rest := hText
      unfold dropAnyMarker
      split
      · next rest => exact absurd rfl (ne_of_digits h (by decide))
      · next rest => exact absurd rfl (ne_of_digits h (by decide))
      · exact h
    · obtain rfl : cs = '0' :: 'x' :: rest := hText
      exact h
    · obtain rfl : cs = '0' :: 'X' :: rest := hText
      exact h

end Markers
end Hex

/-! ## Words -/

/-- A word is read from the texts that spell its bytes. -/
theorem Word.ofHex_eq_ok {text : String} {word : Word} :
    ofHex text = .ok word ↔ Hex.Spells ["", "0x", "0X"] text word.bytes := by
  rw [← Hex.decode_dropAnyMarker_eq_ok, ofHex]
  cases Hex.decode (Hex.dropAnyMarker text.toList) with
  | error fault => simp [bind, Except.bind]
  | ok bytes =>
      simp only [bind, Except.bind, ofBytes?]
      by_cases hWidth : bytes.length = 32
      · simp [hWidth, Word.ext_iff]
      · have hNe : bytes ≠ word.bytes := fun h => hWidth (h ▸ word.length_bytes)
        simp [hWidth, hNe]

end SealedGraph
