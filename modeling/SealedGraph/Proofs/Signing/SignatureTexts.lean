import Mathlib
import SealedGraph.Proofs.Hash.HexSpellings
import SealedGraph.Signing.Message

/-!
# Texts of one signature

A signature can be written in several ways.  Its recovery byte names the parity
of a point as 0 and 1 or as 27 and 28.  Its second number may be replaced by
what is missing to the group order, if the parity is turned round with it.  And
its digits may be of either case, after `0x` or not.  Whoever signed is the same
for all of them: the second number is brought to the lower half first, and the
parity with it.

## Main results

* `Bytes.toNat_ofNat`: what a fixed number of bytes holds.
* `Ecdsa.Signature.normalize_opposite`: both second numbers are brought to the
  same one.
* `Message.readSignature_of_spells`: which signature a text is read as.
* `Message.recover_alike`: all texts of a signature have one signer, and other
  texts have none.
-/

namespace SealedGraph

/-! ## Numbers of fixed width -/

namespace Bytes

theorem toNat_append (bytes : Bytes) (byte : UInt8) :
    toNat (bytes ++ [byte]) = toNat bytes * 256 + byte.toNat := by
  rw [toNat, List.foldl_append]
  rfl

theorem toNat_ofNat (width value : Nat) :
    toNat (ofNat width value) = value % 256 ^ width := by
  induction width generalizing value with
  | zero =>
      rw [Nat.pow_zero, Nat.mod_one]
      rfl
  | succ width ih =>
      have hByte : (UInt8.ofNat value).toNat = value % 256 := UInt8.toNat_ofNat
      rw [ofNat, toNat_append, ih, hByte, Nat.pow_succ', Nat.mod_mul]
      omega

end Bytes

namespace Ecdsa.Signature

/-- A signature with the other second number, and with the other parity. -/
def opposite (signature : Signature) : Signature :=
  { signature with s := Curve.order - signature.s, odd := !signature.odd }

theorem opposite_opposite {signature : Signature}
    (hLt : signature.s < Curve.order) :
    signature.opposite.opposite = signature := by
  simp only [opposite, Nat.sub_sub_self (Nat.le_of_lt hLt), Bool.not_not]

/-- Of the two second numbers one is in the lower half, since the group order is
odd. -/
theorem normalize_opposite {signature : Signature}
    (hLt : signature.s < Curve.order) :
    signature.opposite.normalize = signature.normalize := by
  have hOdd : Curve.order = 2 * half + 1 := by decide
  have hOther : signature.opposite.s = Curve.order - signature.s := rfl
  by_cases hHigh : half < signature.s
  · have hLow : ¬ half < signature.opposite.s := by omega
    rw [normalize, normalize, if_pos hHigh, if_neg hLow]
    rfl
  · have hBack : half < signature.opposite.s := by omega
    rw [normalize, normalize, if_neg hHigh, if_pos hBack]
    exact opposite_opposite hLt

end Ecdsa.Signature

namespace Message

/-- Two numbers and a recovery byte in a row. -/
def signatureRow (r s : Nat) (byte : UInt8) : Bytes :=
  Bytes.ofNat 32 r ++ Bytes.ofNat 32 s ++ [byte]

/-- The bytes of a signature with a parity: with each of both recovery bytes,
and the same for the opposite signature. -/
def rowsOf (r s : Nat) (odd : Bool) : List Bytes :=
  let bit : UInt8 := if odd then 1 else 0
  [signatureRow r s bit, signatureRow r s (27 + bit),
    signatureRow r (Curve.order - s) (1 - bit),
    signatureRow r (Curve.order - s) (28 - bit)]

/-- The address behind a signature on a message. -/
def signer (message : Bytes) (signature : Ecdsa.Signature) :
    Except Error Address :=
  match Ecdsa.recover? (digest message) signature.normalize with
  | some point => .ok (Address.ofPoint point)
  | none => .error (.signature .unrecoverable)

theorem recover_eq (message : Bytes) (text : String) :
    recover message text = readSignature text >>= signer message := by
  rw [recover]
  cases readSignature text with
  | error e => rfl
  | ok signature =>
      show (match Ecdsa.recover? (digest message) signature.normalize with
        | some point => pure (Address.ofPoint point)
        | none => .error (.signature .unrecoverable)) = signer message signature
      rw [signer]
      cases Ecdsa.recover? (digest message) signature.normalize <;> rfl

theorem recover_of_read {message : Bytes} {text : String}
    {signature : Ecdsa.Signature} (h : readSignature text = .ok signature) :
    recover message text = signer message signature := by
  simp only [recover_eq, h, bind, Except.bind]

theorem recover_of_refused {message : Bytes} {text : String} {e : Error}
    (h : readSignature text = .error e) : recover message text = .error e := by
  simp only [recover_eq, h, bind, Except.bind]

/-! ## Texts that are read -/

section Read

variable {text : String} {r s : Nat} {byte : UInt8} {odd : Bool}

theorem length_signatureRow (r s : Nat) (byte : UInt8) :
    (signatureRow r s byte).length = 65 := by
  simp [signatureRow]

/-- The parts of a row. -/
private theorem parts_signatureRow (hr : r < Curve.order) (hs : s < Curve.order)
    (byte : UInt8) :
    (signatureRow r s byte).getD 64 0 = byte ∧
      Bytes.toNat ((signatureRow r s byte).take 32) = r ∧
      Bytes.toNat (((signatureRow r s byte).drop 32).take 32) = s := by
  have hWidth : Curve.order < 256 ^ 32 := by decide
  have hRow :
      signatureRow r s byte =
        Bytes.ofNat 32 r ++ (Bytes.ofNat 32 s ++ [byte]) :=
    List.append_assoc _ _ _
  refine ⟨?_, ?_, ?_⟩
  · rw [signatureRow, List.getD_append_right _ _ _ _ (by simp)]
    simp
  · rw [hRow, List.take_left' (Bytes.length_ofNat 32 r), Bytes.toNat_ofNat,
      Nat.mod_eq_of_lt (Nat.lt_trans hr hWidth)]
  · rw [hRow, List.drop_left' (Bytes.length_ofNat 32 r),
      List.take_left' (Bytes.length_ofNat 32 s), Bytes.toNat_ofNat,
      Nat.mod_eq_of_lt (Nat.lt_trans hs hWidth)]

theorem readSignature_of_spells (hr : 0 < r ∧ r < Curve.order)
    (hs : 0 < s ∧ s < Curve.order) (hByte : parity? byte = some odd)
    (hText : Hex.Spells ["", "0x"] text (signatureRow r s byte)) :
    readSignature text = .ok ⟨r, s, odd, false⟩ := by
  obtain ⟨hLast, hFirst, hSecond⟩ := parts_signatureRow hr.2 hs.2 byte
  have hRange : ¬ (r = 0 ∨ Curve.order ≤ r ∨ s = 0 ∨ Curve.order ≤ s) := by
    omega
  rw [readSignature, Hex.decode_dropMarker_eq_ok.mpr hText]
  simp only [length_signatureRow, hLast, hByte, hFirst, hSecond,
    if_neg hRange, ne_eq, not_true_eq_false, if_false]

/-- A text that does not spell 65 bytes is no signature. -/
theorem readSignature_of_not_spells
    (hText : ∀ bytes, bytes.length = 65 → ¬ Hex.Spells ["", "0x"] text bytes) :
    ∃ fault, readSignature text = .error (.signature fault) := by
  rw [readSignature]
  cases hBytes : Hex.decode (Hex.dropMarker text.toList) with
  | error fault => exact ⟨_, rfl⟩
  | ok bytes =>
      have hWidth : bytes.length ≠ 65 := fun h =>
        hText bytes h (Hex.decode_dropMarker_eq_ok.mp hBytes)
      exact ⟨_, if_pos hWidth⟩

/-- A recovery byte that names no parity is refused before the numbers are
looked at. -/
theorem readSignature_of_parity? {bytes : Bytes} (hWidth : bytes.length = 65)
    (hText : Hex.Spells ["", "0x"] text bytes)
    (hByte : parity? (bytes.getD 64 0) = none) :
    readSignature text =
      .error (.signature (.recoveryByte (bytes.getD 64 0))) := by
  rw [readSignature, Hex.decode_dropMarker_eq_ok.mpr hText]
  simp only [hWidth, hByte, ne_eq, not_true_eq_false, if_false]

theorem parity?_eq_none (h : byte ∉ [0, 1, 27, 28]) : parity? byte = none := by
  simp only [List.mem_cons, List.not_mem_nil, or_false, not_or,
    ← UInt8.toNat_inj] at h
  obtain ⟨hZero, hOne, hPlain, hTurned⟩ := h
  rw [parity?]
  split
  · next hByte => exact absurd hByte hZero
  · next hByte => exact absurd hByte hOne
  · next hByte => exact absurd hByte hPlain
  · next hByte => exact absurd hByte hTurned
  · rfl

end Read

/-! ## Signers -/

/-- What the recovery bytes of a signature name, and those of its opposite. -/
private theorem parity?_rows (odd : Bool) :
    let bit : UInt8 := if odd then 1 else 0
    parity? bit = some odd ∧ parity? (27 + bit) = some odd ∧
      parity? (1 - bit) = some (!odd) ∧ parity? (28 - bit) = some (!odd) := by
  cases odd <;> decide

/-- Every row of a signature is read as that signature or as its opposite. -/
theorem recover_of_mem_rowsOf {text : String} {r s : Nat} {odd : Bool}
    {bytes : Bytes} (hr : 0 < r ∧ r < Curve.order)
    (hs : 0 < s ∧ s < Curve.order) (hBytes : bytes ∈ rowsOf r s odd)
    (hText : Hex.Spells ["", "0x"] text bytes) (message : Bytes) :
    recover message text = signer message ⟨r, s, odd, false⟩ := by
  have hOther : 0 < Curve.order - s ∧ Curve.order - s < Curve.order := by omega
  have hNormal : (Ecdsa.Signature.opposite ⟨r, s, odd, false⟩).normalize =
      (⟨r, s, odd, false⟩ : Ecdsa.Signature).normalize :=
        Ecdsa.Signature.normalize_opposite hs.2
  have hSame : signer message (Ecdsa.Signature.opposite ⟨r, s, odd, false⟩) =
      signer message ⟨r, s, odd, false⟩ := by
    rw [signer, signer, hNormal]
  obtain ⟨hBit, hMarked, hTurned, hMarkedTurned⟩ := parity?_rows odd
  simp only [rowsOf, List.mem_cons, List.not_mem_nil, or_false] at hBytes
  have hRead {second : Nat} {byte : UInt8} {parity : Bool}
      (hSecond : 0 < second ∧ second < Curve.order)
      (hByte : parity? byte = some parity)
      (hRow : bytes = signatureRow r second byte) :
      recover message text = signer message ⟨r, second, parity, false⟩ := by
    rw [hRow] at hText
    exact recover_of_read (readSignature_of_spells hr hSecond hByte hText)
  obtain hRow | hRow | hRow | hRow := hBytes
  · exact hRead hs hBit hRow
  · exact hRead hs hMarked hRow
  · exact (hRead hOther hTurned hRow).trans hSame
  · exact (hRead hOther hMarkedTurned hRow).trans hSame

/-- All texts of a signature have one signer, who is found or not: whichever of
both second numbers is written and whichever recovery byte goes with it, in
digits of either case, after `0x` or not.  Texts that do not spell 65 bytes, or
end with another recovery byte, are invalid signatures. -/
theorem recover_alike (message : Bytes) :
    (∀ (r s : Nat) (odd : Bool), 0 < r → r < Curve.order → 0 < s →
      s < Curve.order →
      ∀ bytes ∈ rowsOf r s odd, ∀ text, Hex.Spells ["", "0x"] text bytes →
        recover message text = signer message ⟨r, s, odd, false⟩) ∧
    (∀ text, (∀ bytes, bytes.length = 65 → ¬ Hex.Spells ["", "0x"] text bytes) →
      ∃ fault, recover message text = .error (.signature fault)) ∧
    ∀ text bytes, bytes.length = 65 → Hex.Spells ["", "0x"] text bytes →
      bytes.getD 64 0 ∉ [0, 1, 27, 28] →
      recover message text =
        .error (.signature (.recoveryByte (bytes.getD 64 0))) := by
  refine ⟨?_, ?_, ?_⟩
  · intro r s odd hrPos hr hsPos hs bytes hBytes text hText
    exact recover_of_mem_rowsOf ⟨hrPos, hr⟩ ⟨hsPos, hs⟩ hBytes hText message
  · intro text hText
    obtain ⟨fault, hFault⟩ := readSignature_of_not_spells hText
    exact ⟨fault, recover_of_refused hFault⟩
  · intro text bytes hWidth hText hByte
    exact recover_of_refused
      (readSignature_of_parity? hWidth hText (parity?_eq_none hByte))

/-- A greeting, signed in the lower half with the marker and as raw numbers of
the upper half in capitals; two texts that nobody signed. -/
theorem recover_alike_greeting :
    let message := Bytes.ofText "hello"
    let lower :=
      "0xf16ea9a3478698f695fd1401bfe27e9e4a7e8e3da94aa72b021125e31fa899cc" ++
      "573c48ea3fe1d4ab61a9db10c19032026e3ed2dbccba5a178235ac27f94504311c"
    let upper :=
      "F16EA9A3478698F695FD1401BFE27E9E4A7E8E3DA94AA72B021125E31FA899CC" ++
      "A8C3B715C01E2B549E5624EF3E6FCDFC4C700A0AE28E46243D9CB264D6F13D1000"
    let unmarked :=
      "0xf16ea9a3478698f695fd1401bfe27e9e4a7e8e3da94aa72b021125e31fa899cc" ++
      "573c48ea3fe1d4ab61a9db10c19032026e3ed2dbccba5a178235ac27f945043105"
    recover message lower = recover message upper ∧
      (∃ fault, recover message "0x1c" = .error (.signature fault)) ∧
      recover message unmarked = .error (.signature (.recoveryByte 5)) := by
  intro message lower upper unmarked
  let r := 0xf16ea9a3478698f695fd1401bfe27e9e4a7e8e3da94aa72b021125e31fa899cc
  let s := 0x573c48ea3fe1d4ab61a9db10c19032026e3ed2dbccba5a178235ac27f9450431
  obtain ⟨hAlike, hRefused, hMarked⟩ := recover_alike message
  have hRows := hAlike r s true (by decide) (by decide) (by decide) (by decide)
  refine ⟨?_, ?_, ?_⟩
  · have hLower := hRows (signatureRow r s 28) (by decide +kernel) lower
      (Hex.decode_dropMarker_eq_ok.mp (by decide +kernel))
    have hUpper :=
      hRows (signatureRow r (Curve.order - s) 0) (by decide +kernel) upper
        (Hex.decode_dropMarker_eq_ok.mp (by decide +kernel))
    exact hLower.trans hUpper.symm
  · refine hRefused _ fun bytes hWidth hText => ?_
    have hRead := Hex.decode_dropMarker_eq_ok.mpr hText
    have hShort : Hex.decode (Hex.dropMarker "0x1c".toList) = .ok [28] := by
      decide +kernel
    rw [hShort] at hRead
    cases hRead
    exact absurd hWidth (by decide)
  · have hLast : (signatureRow r s 5).getD 64 0 = 5 := by decide +kernel
    have hUnmarked :=
      hMarked unmarked (signatureRow r s 5) (length_signatureRow r s 5)
        (Hex.decode_dropMarker_eq_ok.mp (by decide +kernel))
        (by rw [hLast]; decide)
    rwa [hLast] at hUnmarked

end Message
end SealedGraph
