import Mathlib.Data.List.Forall2
import SealedGraph.Account.Address
import SealedGraph.Exchange.Key
import SealedGraph.Proofs.Hash.HexSpellings

/-!
# Texts of words, keys and addresses

Words, keys and addresses are read from as many hexadecimal digits as they have
half bytes, in either case, and before the digits a marker may stand.  Nothing
else is read, and which value is read depends on the digits alone, not on their
case nor on the marker.

Every value is read from what is printed for it.  An address is printed with
some of its letters large, by a digest of the small ones; since reading ignores
the case, it does not matter which.

## Main results

* `Hex.digits_iff`: so many digits of either case spell half as many bytes.
* `Hex.reads_of_spells`: what a reader accepts that takes all spellings of its
  values.
* `Address.letterCase_checksumDigits`: a checksum changes nothing but the case
  of letters.
* `Hex.reads_what_is_printed`: words, keys and addresses.
-/

namespace SealedGraph

namespace Hex

/-! ## Digits of either case -/

/-- The hexadecimal digits of either case. -/
def alphabet : List Char :=
  ['0', '1', '2', '3', '4', '5', '6', '7', '8', '9', 'a', 'b', 'c',
    'd', 'e', 'f', 'A', 'B', 'C', 'D', 'E', 'F']

/-- A text of so many hexadecimal digits of either case. -/
structure Digits (count : Nat) (text : String) : Prop where
  length_eq : text.length = count
  mem_alphabet : ∀ c ∈ text.toList, c ∈ alphabet

private theorem mem_alphabet_ofNat :
    ∀ n < 128, (value? (Char.ofNat n)).isSome → Char.ofNat n ∈ alphabet := by
  decide +kernel

private theorem all_isSome_value? :
    alphabet.all (fun c => (value? c).isSome) = true := by
  decide

theorem mem_alphabet_iff {c : Char} :
    c ∈ alphabet ↔ ∃ v, value? c = some v := by
  rw [← Option.isSome_iff_exists]
  constructor
  · exact List.all_eq_true.mp all_isSome_value? c
  · intro h
    obtain ⟨v, hv⟩ := Option.isSome_iff_exists.mp h
    rw [← Char.ofNat_toNat c] at h ⊢
    exact mem_alphabet_ofNat c.toNat (toNat_lt_of_value? hv) h

/-- Two digits of either case are those of a byte. -/
theorem exists_byte {high low : Char} (hHigh : high ∈ alphabet)
    (hLow : low ∈ alphabet) :
    ∃ byte : UInt8, high.toLower = digit (byte.toNat / 16) ∧
      low.toLower = digit (byte.toNat % 16) := by
  obtain ⟨h, hh⟩ := mem_alphabet_iff.mp hHigh
  obtain ⟨l, hl⟩ := mem_alphabet_iff.mp hLow
  obtain ⟨hhLt, hhDigit⟩ := value?_eq_some.mp hh
  obtain ⟨hlLt, hlDigit⟩ := value?_eq_some.mp hl
  have hByte : (UInt8.ofNat (h * 16 + l)).toNat = h * 16 + l :=
    UInt8.toNat_ofNat_of_lt' (show h * 16 + l < 256 by omega)
  refine ⟨UInt8.ofNat (h * 16 + l), ?_, ?_⟩
  · rw [hByte, hhDigit, show (h * 16 + l) / 16 = h by omega]
  · rw [hByte, hlDigit, show (h * 16 + l) % 16 = l by omega]

/-- An even number of digits of either case are those of half as many bytes. -/
theorem exists_bytes : ∀ {width : Nat} {cs : List Char}, cs.length = 2 * width →
    (∀ c ∈ cs, c ∈ alphabet) →
      ∃ bytes : Bytes, bytes.length = width ∧ cs.map Char.toLower = digits bytes
  | 0, [], _, _ => ⟨[], rfl, rfl⟩
  | 0, _ :: _, hLength, _ => by simp at hLength
  | width + 1, [], hLength, _ => by simp at hLength
  | width + 1, [_], hLength, _ => by simp at hLength; omega
  | width + 1, high :: low :: rest, hLength, hDigits => by
      have hRest : rest.length = 2 * width := by
        simp only [List.length_cons] at hLength
        omega
      obtain ⟨byte, hHigh, hLow⟩ :=
        exists_byte (hDigits high (by simp)) (hDigits low (by simp))
      obtain ⟨bytes, hWidth, hBytes⟩ :=
        exists_bytes hRest fun c hc => hDigits c (by simp [hc])
      refine ⟨byte :: bytes, ?_, ?_⟩
      · rw [List.length_cons, hWidth]
      · rw [List.map_cons, List.map_cons, hHigh, hLow, hBytes, digits]

theorem toLower_eq_encode {text : String} {bytes : Bytes} :
    text.toLower = encode bytes ↔
      text.toList.map Char.toLower = digits bytes := by
  rw [← String.toList_map, encode, ← String.toList_inj, String.toList_ofList]
  rfl

/-- So many digits of either case are those of half as many bytes, but for their
case. -/
theorem digits_iff {width : Nat} {text : String} :
    Digits (2 * width) text ↔ ∃ bytes : Bytes, bytes.length = width ∧
      text.toLower = encode bytes := by
  constructor
  · intro h
    obtain ⟨bytes, hWidth, hBytes⟩ :=
      exists_bytes (String.length_toList.trans h.length_eq) h.mem_alphabet
    exact ⟨bytes, hWidth, toLower_eq_encode.mpr hBytes⟩
  · rintro ⟨bytes, hWidth, hText⟩
    have hBytes := toLower_eq_encode.mp hText
    constructor
    · have hLength := congrArg List.length hBytes
      rwa [List.length_map, length_digits, hWidth, String.length_toList]
        at hLength
    · exact fun c hc => mem_alphabet_iff.mpr (exists_value? hBytes c hc)

theorem toLower_encode (bytes : Bytes) :
    (encode bytes).toLower = encode bytes := by
  rw [toLower_eq_encode, encode, String.toList_ofList]
  exact decode_ok_iff.mp (decode_digits bytes)

/-! ## Readers -/

section Reads

variable {α ε : Type} {read : String → Except ε α} {markers : List String}

/-- A reader takes so many digits of either case after one of some markers, and
nothing else.  What it reads is told by the digits, and by nothing else. -/
structure Reads (read : String → Except ε α) (markers : List String)
    (count : Nat) : Prop where
  accepts : ∀ text, (∃ value, read text = .ok value) ↔
    ∃ marker ∈ markers, ∃ digits, Digits count digits ∧ text = marker ++ digits
  alike : ∀ marker ∈ markers, ∀ other ∈ markers, ∀ digits others,
    Digits count digits →
    Digits count others → (read (marker ++ digits) = read (other ++ others) ↔
      digits.toLower = others.toLower)

/-- Readers that take all spellings of their values are of this kind, if the
values are all rows of so many bytes. -/
theorem reads_of_spells {bytes : α → Bytes} {width : Nat}
    (hRead : ∀ {text value}, read text = .ok value ↔
      Spells markers text (bytes value))
    (hWidth : ∀ value, (bytes value).length = width)
    (hRow : ∀ row : Bytes, row.length = width → ∃ value, bytes value = row) :
    Reads read markers (2 * width) := by
  -- Digits spell a value behind whichever marker.
  have hSpelled {digits : String} (hDigits : Digits (2 * width) digits) :
      ∃ value, digits.toLower = encode (bytes value) ∧
        ∀ marker ∈ markers, read (marker ++ digits) = .ok value := by
    obtain ⟨row, hLength, hLower⟩ := digits_iff.mp hDigits
    obtain ⟨value, rfl⟩ := hRow row hLength
    exact ⟨value, hLower,
      fun marker hMarker => hRead.mpr ⟨marker, hMarker, digits, rfl, hLower⟩⟩
  constructor
  · intro text
    constructor
    · rintro ⟨value, hValue⟩
      obtain ⟨marker, hMarker, digits, rfl, hLower⟩ := hRead.mp hValue
      exact ⟨marker, hMarker, digits,
        digits_iff.mpr ⟨bytes value, hWidth value, hLower⟩, rfl⟩
    · rintro ⟨marker, hMarker, digits, hDigits, rfl⟩
      obtain ⟨value, _, hValue⟩ := hSpelled hDigits
      exact ⟨value, hValue marker hMarker⟩
  · intro marker hMarker other hOther digits others hDigits hOthers
    obtain ⟨value, hLower, hValue⟩ := hSpelled hDigits
    obtain ⟨value', hLower', hValue'⟩ := hSpelled hOthers
    rw [hValue marker hMarker, hValue' other hOther, hLower, hLower']
    constructor
    · intro h
      rw [Except.ok.inj h]
    · intro h
      have hSame : read (other ++ others) = .ok value :=
        hRead.mpr ⟨other, hOther, others, rfl, hLower'.trans h.symm⟩
      rw [← hSame, hValue' other hOther]

end Reads

end Hex

/-! ## Words and keys -/

theorem Word.reads_ofHex : Hex.Reads Word.ofHex ["", "0x", "0X"] 64 :=
  Hex.reads_of_spells Word.ofHex_eq_ok Word.length_bytes fun row hRow =>
    ⟨⟨row, hRow⟩, rfl⟩

theorem Word.ofHex_toHex (word : Word) : Word.ofHex word.toHex = .ok word :=
  Word.ofHex_eq_ok.mpr ⟨"", by simp, word.toHex, String.empty_append.symm,
    Hex.toLower_encode _⟩

namespace ExchangeKey

/-- Every spelling of a key is read as that key. -/
theorem ofText_eq_ok {text : String} {key : ExchangeKey} :
    ofText text = .ok key ↔
      Hex.Spells ["", "0x", "0X"] text key.word.bytes := by
  obtain ⟨word⟩ := key
  rw [← Word.ofHex_eq_ok, ofText]
  cases Word.ofHex text <;> simp

theorem ofText_text (key : ExchangeKey) : ofText key.text = .ok key :=
  ofText_eq_ok.mpr (Word.ofHex_eq_ok.mp key.word.ofHex_text)

theorem reads_ofText : Hex.Reads ofText ["", "0x", "0X"] 64 :=
  Hex.reads_of_spells ofText_eq_ok (fun key => key.word.length_bytes)
    fun row hRow => ⟨⟨⟨row, hRow⟩⟩, rfl⟩

end ExchangeKey

/-! ## Addresses -/

namespace Address

theorem ofText_eq_ok {text : String} {address : Address} :
    ofText text = .ok address ↔ Hex.Spells ["", "0x"] text address.bytes := by
  rw [← Hex.decode_dropMarker_eq_ok, ofText]
  cases Hex.decode (Hex.dropMarker text.toList) with
  | error fault => simp
  | ok bytes =>
      by_cases hWidth : bytes.length = 20
      · cases address
        simp [hWidth]
      · have hNe : bytes ≠ address.bytes :=
          fun h => hWidth (h ▸ address.length_bytes)
        simp [hWidth, hNe]

theorem reads_ofText : Hex.Reads ofText ["", "0x"] 40 :=
  Hex.reads_of_spells ofText_eq_ok Address.length_bytes fun row hRow =>
    ⟨⟨row, hRow⟩, rfl⟩

/-- A character is a small one, or the same letter written large. -/
def LetterCase (written small : Char) : Prop :=
  written = small ∨ small.isLower = true ∧ written = small.toUpper

private theorem toUpper_digit : ∀ v < 16,
    (Hex.digit v).toUpper = Hex.digit v ∨ (Hex.digit v).isLower = true := by
  decide

private theorem toLower_digit : ∀ v < 16,
    (Hex.digit v).toLower = Hex.digit v ∧
      (Hex.digit v).toUpper.toLower = Hex.digit v := by
  decide

theorem letterCase_checksumDigit (check : Char) {v : Nat} (hv : v < 16) :
    LetterCase (checksumDigit (Hex.digit v) check) (Hex.digit v) := by
  rw [checksumDigit]
  split
  · rcases toUpper_digit v hv with hSame | hLetter
    · exact .inl hSame
    · exact .inr ⟨hLetter, rfl⟩
  · exact .inl rfl

theorem LetterCase.toLower_eq {written : Char} {v : Nat} (hv : v < 16)
    (h : LetterCase written (Hex.digit v)) : written.toLower = Hex.digit v := by
  obtain ⟨hSmall, hLarge⟩ := toLower_digit v hv
  rcases h with rfl | ⟨_, rfl⟩
  · exact hSmall
  · exact hLarge

/-- There is a checksum digit for each digit. -/
theorem letterCase_checksumDigits : ∀ {row : Bytes} {check : List Char},
    2 * row.length ≤ check.length →
      List.Forall₂ LetterCase (checksumDigits (Hex.digits row) check)
        (Hex.digits row)
  | [], check, _ => by
      rw [Hex.digits, checksumDigits, List.zipWith_nil_left]
      exact .nil
  | byte :: row, first :: second :: check, hEnough => by
      have hByte := byte.toNat_lt
      have hRest : 2 * row.length ≤ check.length := by
        simp only [List.length_cons] at hEnough
        omega
      rw [Hex.digits, checksumDigits, List.zipWith_cons_cons,
        List.zipWith_cons_cons]
      exact .cons (letterCase_checksumDigit first (by omega))
        (.cons (letterCase_checksumDigit second (by omega))
          (letterCase_checksumDigits hRest))
  | byte :: row, [], hEnough => by simp at hEnough
  | byte :: row, [_], hEnough => by simp at hEnough; omega

theorem map_toLower_of_letterCase : ∀ {row : Bytes} {written : List Char},
    List.Forall₂ LetterCase written (Hex.digits row) →
    written.map Char.toLower = Hex.digits row
  | [], _, .nil => rfl
  | byte :: row, _, .cons hHigh (.cons hLow hRest) => by
      have hByte := byte.toNat_lt
      rw [List.map_cons, List.map_cons, hHigh.toLower_eq (by omega),
        hLow.toLower_eq (by omega), map_toLower_of_letterCase hRest, Hex.digits]

/-- An address is printed as its digits, but for letters that are written
large. -/
theorem exists_letterCase_text (address : Address) : ∃ written : String,
    address.text = "0x" ++ written ∧
      List.Forall₂ LetterCase written.toList address.toHex.toList := by
  refine ⟨_, rfl, ?_⟩
  rw [String.toList_ofList, toHex, Hex.encode, String.toList_ofList]
  refine letterCase_checksumDigits ?_
  rw [Hex.length_digits, address.length_bytes, Word.length_bytes]
  decide

theorem ofText_text (address : Address) :
    ofText address.text = .ok address := by
  obtain ⟨written, hText, hCase⟩ := address.exists_letterCase_text
  rw [toHex, Hex.encode, String.toList_ofList] at hCase
  have hLower : written.toLower = Hex.encode address.bytes :=
    Hex.toLower_eq_encode.mpr (map_toLower_of_letterCase hCase)
  exact ofText_eq_ok.mpr ⟨"0x", by simp, written, hText, hLower⟩

end Address

/-! ## What is read and printed -/

/-- Words and keys are read from 64 digits of either case after at most one
marker, `0x` or `0X`, and addresses from 40 digits after at most one `0x`; from
nothing else, and from digits that differ in their case only the same is read.
What is printed for a value is read as this value, and the checksum of an
address is in the case of its letters alone. -/
theorem Hex.reads_what_is_printed :
    Reads Word.ofHex ["", "0x", "0X"] 64 ∧
      Reads ExchangeKey.ofText ["", "0x", "0X"] 64 ∧
      Reads Address.ofText ["", "0x"] 40 ∧
      (∀ word : Word, Word.ofHex word.toHex = .ok word ∧
        Word.ofHex word.text = .ok word) ∧
      (∀ key : ExchangeKey, ExchangeKey.ofText key.text = .ok key) ∧
      ∀ address : Address, Address.ofText address.text = .ok address ∧
        ∃ written : String, address.text = "0x" ++ written ∧
          List.Forall₂ Address.LetterCase written.toList
            address.toHex.toList := by
  refine ⟨Word.reads_ofHex, ExchangeKey.reads_ofText, Address.reads_ofText,
    ?_, ?_, ?_⟩
  · exact fun word => ⟨word.ofHex_toHex, word.ofHex_text⟩
  · exact ExchangeKey.ofText_text
  · exact fun address => ⟨address.ofText_text, address.exists_letterCase_text⟩

end SealedGraph
