import SealedGraph.Proofs.Decimal.OneRounding
import SealedGraph.Proofs.Json.Rereading

/-!
# Floats that are read back

The reader takes up digits as long as they fit 64 bits, and rounds twice.  If
the digits of a text fit 53 bits and the point is not far from their end, all of
them are taken up and only one rounding counts; then a float is read back from
its text.  So is a value all of whose floats are of this kind.

## Main results

* `NumberText.taken_eq_decimal`: digits of 64 bits are all taken up.
* `Number.reread?_float`: a float whose text has few digits is read back.
* `readsBack_of_fewDigits`: so is a value with such floats only.
-/

namespace SealedGraph.Json

/-! ## Texts with few digits -/

namespace NumberText

theorem le_ofDigitChars (significand : Nat) (digits : List Char) :
    significand ≤ Nat.ofDigitChars 10 digits significand := by
  induction digits generalizing significand with
  | nil => exact Nat.le_refl _
  | cons c digits ih =>
      rw [Nat.ofDigitChars_cons]
      exact Nat.le_trans (by omega) (ih _)

/-- Digits that make up a number of 64 bits are all taken up. -/
theorem takeUp_eq {significand : Nat} {digits : List Char}
    (h : Nat.ofDigitChars 10 digits significand < 18446744073709551616) :
    takeUp significand digits =
      (Nat.ofDigitChars 10 digits significand, []) := by
  induction digits generalizing significand with
  | nil => rfl
  | cons c digits ih =>
      rw [Nat.ofDigitChars_cons] at h ⊢
      have hNext := Nat.lt_of_le_of_lt (le_ofDigitChars _ digits) h
      exact (if_pos hNext).trans (ih h)

theorem taken_eq_decimal {text : NumberText}
    (h : text.decimal.coefficient < 18446744073709551616) :
    text.taken = text.decimal := by
  have hDigits : Nat.ofDigitChars 10 (text.fraction.getD [])
      (Nat.ofDigitChars 10 text.whole 0) < 18446744073709551616 := by
    rw [← Nat.ofDigitChars_append]
    exact h
  have hWhole := Nat.lt_of_le_of_lt (le_ofDigitChars _ _) hDigits
  simp only [taken, takeUp_eq hWhole, takeUp_eq hDigits, decimal,
    Nat.ofDigitChars_append]
  congr 1
  simp

/-- The digits of a magnitude make up a number of 53 bits, and the point is at
most 22 places away from their end. -/
structure FewDigits (text : NumberText) : Prop where
  coefficient : text.decimal.coefficient < 2 ^ 53
  exponent : text.decimal.exponent.natAbs ≤ 22

/-- A text with few digits is read as the nearest double. -/
theorem FewDigits.float?_eq {text : NumberText} (h : text.FewDigits) :
    text.float? =
      (Binary64.ofDecimal text.negative text.decimal).map .float := by
  have hTaken := taken_eq_decimal (Nat.lt_trans h.coefficient (by decide))
  rw [float?, hTaken, Binary64.ofParts?_eq_ofDecimal h.coefficient h.exponent]

theorem number?_eq_float? {text : NumberText}
    (h : text.fraction ≠ none ∨ text.exponent ≠ none) :
    text.number? = text.float? := by
  unfold number?
  split
  · next hFraction hExponent =>
    exact absurd h (not_or.mpr ⟨not_not.mpr hFraction, not_not.mpr hExponent⟩)
  · rfl

end NumberText

/-! ## Floats -/

/-- A float is read back if its text has few digits. -/
theorem Number.reread?_float {x : Binary64} (h : (text (.float x)).FewDigits) :
    reread? (.float x) = some (.float x) := by
  have hFloat : (text (.float x)).number? = (text (.float x)).float? :=
    NumberText.number?_eq_float?
      (NumberText.isFloat_ofDecimal layout x.negative x.shortest.reduce)
  have hSign : (text (.float x)).negative = x.negative :=
    NumberText.negative_ofDecimal layout x.negative x.shortest.reduce
  rw [reread?_eq, hFloat, h.float?_eq, hSign, ofDecimal_text]
  rfl

/-- A value is read back if the texts of its floats have few digits. -/
theorem readsBack_of_fewDigits {v : Json}
    (h : ∀ x, .float x ∈ v.numbers → (Number.text (.float x)).FewDigits) :
    v.ReadsBack := by
  intro n hn
  cases n with
  | integer n => exact Number.reread?_integer n
  | float x => exact Number.reread?_float (h x hn)

end SealedGraph.Json
