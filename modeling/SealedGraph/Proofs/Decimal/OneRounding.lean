import Mathlib
import SealedGraph.Decimal.Scaling
import SealedGraph.Proofs.Decimal.Exact

/-!
# Decimals that are rounded once

A decimal is read with two roundings: that of its coefficient, and that of the
product or the quotient with a power of ten.  The first one changes nothing if
the coefficient is a double itself, and the last one gives the nearest double if
the power of ten is a double as well.  All coefficients below `2 ^ 53` are
doubles, and so are the powers of ten up to the 22nd.

## Main results

* `rankOf_congr`: how a quotient is rounded depends on its value only.
* `exists_nearest?`, `exists_powerOfTen?`: numbers that are doubles.
* `ofParts?_eq_ofDecimal`: a decimal with few digits is read as the nearest
  double.
-/

namespace SealedGraph.Binary64

/-! ## Quotients of one value -/

theorem roundQuotient_mul_mul (num den : Nat) {factor : Nat}
    (hFactor : 0 < factor) :
    roundQuotient (num * factor) (den * factor) = roundQuotient num den := by
  have hDoubled :
      2 * (num * factor % (den * factor)) = 2 * (num % den) * factor := by
    rw [Nat.mul_mod_mul_right, Nat.mul_assoc]
  unfold roundQuotient
  simp only [Nat.mul_div_mul_right _ _ hFactor, hDoubled,
    Nat.mul_lt_mul_right hFactor]

theorem rankOf_mul_mul (num den : Nat) {factor : Nat} (hFactor : 0 < factor) :
    rankOf (num * factor) (den * factor) = rankOf num den := by
  have hUnits : num * factor * Nat.pow 2 1074 = num * Nat.pow 2 1074 * factor :=
    Nat.mul_right_comm _ _ _
  unfold rankOf
  simp only [hUnits, Nat.mul_div_mul_right _ _ hFactor]
  rw [Nat.mul_right_comm den, roundQuotient_mul_mul _ _ hFactor]

/-- How a quotient is rounded depends on its value only. -/
theorem rankOf_congr {num den num' den' : Nat} (hDen : 0 < den)
    (hDen' : 0 < den') (hSame : num * den' = num' * den) :
    rankOf num den = rankOf num' den' :=
  calc rankOf num den
    _ = rankOf (num * den') (den * den') := (rankOf_mul_mul _ _ hDen').symm
    _ = rankOf (num' * den) (den' * den) := by rw [hSame, Nat.mul_comm den]
    _ = rankOf num' den' := rankOf_mul_mul _ _ hDen

theorem nearest?_mul_pow (negative : Bool) (num den exponent : Nat) :
    nearest? negative (num * 2 ^ exponent) (den * 2 ^ exponent) =
      nearest? negative num den := by
  unfold nearest?
  simp only [rankOf_mul_mul num den (Nat.two_pow_pos exponent)]

theorem nearest?_over_pow (negative : Bool) (num exponent : Nat) :
    nearest? negative (num * 2 ^ exponent) (Nat.pow 2 exponent) =
      nearest? negative num 1 := by
  rw [← nearest?_mul_pow negative num 1 exponent, Nat.one_mul]
  rfl

/-! ## Numbers that are doubles -/

/-- There is a double for each significand of 53 bits and each scale. -/
theorem exists_significand (negative : Bool) (scale : Nat) {significand : Nat}
    (hScale : scale < 2046) (hLow : binade ≤ significand)
    (hHigh : significand < 2 * binade) :
    ∃ x : Binary64, x.negative = negative ∧ x.scale = scale ∧
      x.significand = significand := by
  have hBinade : binade = 4503599627370496 := rfl
  rw [hBinade] at hLow hHigh
  have hRank : scale * binade + significand < 2047 * binade := by
    rw [hBinade]
    omega
  have hFound : (⟨negative, _, hRank⟩ : Binary64).scale = scale := by
    show (scale * binade + significand) / binade - 1 = scale
    rw [hBinade]
    omega
  refine ⟨⟨negative, _, hRank⟩, rfl, hFound, ?_⟩
  rw [Binary64.significand, hFound]
  show scale * binade + significand - scale * binade = significand
  rw [Nat.add_sub_cancel_left]

theorem nearest?_zero (negative : Bool) (den : Nat) :
    nearest? negative 0 den = some (zero negative) := by
  have hRank : rankOf 0 den = 0 := by
    simp [rankOf, roundQuotient, -Nat.reducePow]
  unfold nearest?
  simp only [hRank]
  rfl

/-- Integers of 53 bits are doubles. -/
theorem exists_nearest? (negative : Bool) {n : Nat} (hn : n < 2 ^ 53) :
    ∃ x, nearest? negative n 1 = some x ∧ x.negative = negative ∧
      x.units = n * 2 ^ 1074 := by
  by_cases hZero : n = 0
  · subst hZero
    refine ⟨zero negative, nearest?_zero negative 1, rfl, ?_⟩
    show (0 - _) * _ = 0 * 2 ^ 1074
    rw [Nat.zero_sub, Nat.zero_mul, Nat.zero_mul]
  · obtain ⟨bits, hBits⟩ : ∃ bits, Nat.log2 n + bits = 52 :=
      ⟨52 - Nat.log2 n, Nat.add_sub_cancel'
        (Nat.le_of_lt_succ ((Nat.log2_lt hZero).mpr hn))⟩
    have hLow : binade ≤ n * 2 ^ bits := by
      rw [binade_eq, ← hBits, pow_add]
      exact Nat.mul_le_mul_right _ (Nat.log2_self_le hZero)
    have hHigh : n * 2 ^ bits < 2 * binade := by
      rw [binade_eq, ← hBits, pow_add, ← Nat.mul_assoc, ← pow_succ']
      exact Nat.mul_lt_mul_of_pos_right Nat.lt_log2_self (by positivity)
    obtain ⟨x, rfl, hScale, hSignificand⟩ :=
      exists_significand negative (Nat.log2 n + 1022) (by omega) hLow hHigh
    have hExponent : bits + (Nat.log2 n + 1022) = 1074 := by omega
    have hUnits : x.significand * 2 ^ x.scale = n * 2 ^ 1074 := by
      rw [hScale, hSignificand, Nat.mul_assoc, ← pow_add, hExponent]
    have hRank : rankOf n 1 = x.rank := by
      refine rankOf_eq Nat.one_pos ?_ (by rw [hUnits, Nat.mul_one])
      rw [hSignificand]
      positivity
    refine ⟨x, ?_, rfl, hUnits⟩
    unfold nearest?
    simp only [hRank]
    exact dif_pos x.rank_lt

/-- The first powers of ten are doubles. -/
theorem exists_powerOfTen? {power : Nat} (hPower : power ≤ 22) :
    ∃ x, powerOfTen? power = some x ∧ x.units = 10 ^ power * 2 ^ 1074 := by
  have hAll : ∀ power ≤ 22,
      (powerOfTen? power).map units = some (10 ^ power * 2 ^ 1074) := by
    decide +kernel
  obtain ⟨x, hx, hUnits⟩ := Option.map_eq_some_iff.mp (hAll power hPower)
  exact ⟨x, hx, hUnits⟩

/-! ## Two roundings -/

private theorem mul_pow_mul_mul_pow (m n k : Nat) :
    m * 2 ^ k * (n * 2 ^ k) = m * n * 2 ^ (2 * k) := by
  rw [Nat.two_mul, pow_add]
  exact Nat.mul_mul_mul_comm _ _ _ _

section Magnitudes

variable {x y : Binary64} {m n : Nat} (hx : x.units = m * 2 ^ 1074)
  (hy : y.units = n * 2 ^ 1074)

include hx hy

theorem times?_eq : x.times? y = nearest? x.negative (m * n) 1 := by
  have hUnits : x.units * y.units = m * n * 2 ^ (2 * 1074) := by
    rw [hx, hy]
    exact mul_pow_mul_mul_pow m n 1074
  rw [times?, hUnits]
  generalize 2 * 1074 = exponent
  exact nearest?_over_pow x.negative (m * n) exponent

theorem over?_eq : x.over? y = nearest? x.negative m n := by
  rw [over?, hx, hy, nearest?_mul_pow]

end Magnitudes

theorem scaleUpTo?_of_le (x : Binary64) {exponent : Int}
    (h : exponent.natAbs ≤ greatestPower) (fuel : Nat) :
    x.scaleUpTo? fuel exponent = x.scaleOnce? exponent := by
  cases fuel with
  | zero => rfl
  | succ fuel => exact if_pos h

/-- A number of 53 bits does not end in as many zeros. -/
private theorem zeros_lt {m k : Nat} (hm : m ≠ 0) (h : m * 10 ^ k < 2 ^ 53) :
    k < 53 := by
  have hPowers : 2 ^ k ≤ 10 ^ k := Nat.pow_le_pow_left (by decide) k
  have hLow : 10 ^ k ≤ m * 10 ^ k :=
    Nat.le_mul_of_pos_left _ (Nat.pos_of_ne_zero hm)
  exact (Nat.pow_lt_pow_iff_right (by decide)).mp
    (Nat.lt_of_le_of_lt (Nat.le_trans hPowers hLow) h)

section Reading

variable {d : Decimal} (hCoefficient : d.coefficient < 2 ^ 53)
  (hExponent : d.exponent.natAbs ≤ 22)

include hCoefficient hExponent

/-- Only the last one of the two roundings changes anything. -/
theorem ofParts?_eq_nearest? (negative : Bool) :
    ofParts? negative d =
      nearest? negative (d.coefficient * 10 ^ d.exponent.toNat)
        (10 ^ (-d.exponent).toNat) := by
  obtain ⟨x, hx, rfl, hUnits⟩ := exists_nearest? negative hCoefficient
  obtain ⟨y, hy, hPower⟩ := exists_powerOfTen? hExponent
  have hAtHand : d.exponent.natAbs ≤ greatestPower :=
    Nat.le_trans hExponent (by decide)
  rw [ofParts?, hx, Option.bind_eq_bind, Option.bind_some,
    scaleUpTo?_of_le x hAtHand, scaleOnce?, hy, Option.bind_eq_bind,
    Option.bind_some]
  by_cases hSign : 0 ≤ d.exponent
  · have hZero : (-d.exponent).toNat = 0 := by omega
    have hPositive : d.exponent.natAbs = d.exponent.toNat := by omega
    rw [if_pos hSign, times?_eq hUnits hPower, hZero, hPositive, pow_zero]
  · have hZero : d.exponent.toNat = 0 := by omega
    have hNegative : d.exponent.natAbs = (-d.exponent).toNat := by omega
    rw [if_neg hSign, over?_eq hUnits hPower, hZero, hNegative, pow_zero,
      Nat.mul_one]

/-- What is nearest to a decimal is nearest to its value, however many zeros it
ends in. -/
theorem ofDecimal_eq_nearest? (negative : Bool) :
    ofDecimal negative d =
      nearest? negative (d.coefficient * 10 ^ d.exponent.toNat)
        (10 ^ (-d.exponent).toNat) := by
  by_cases hZero : d.coefficient = 0
  · rw [ofDecimal, if_pos hZero, hZero, Nat.zero_mul, nearest?_zero]
  · obtain ⟨m, k, hSplit, hm⟩ := Decimal.exists_last_ne_zero hZero
    have hReduce := Decimal.reduce_of_last_ne_zero hm k d.exponent
    have hZeros : k < 53 :=
      zeros_lt (fun h => hm (by rw [h])) (hSplit ▸ hCoefficient)
    rw [← hSplit] at hReduce
    have hUp : (d.exponent + k).toNat + (-d.exponent).toNat =
        k + d.exponent.toNat + (-(d.exponent + k)).toNat := by omega
    have hRank : rankOf (m * 10 ^ (d.exponent + k).toNat)
          (10 ^ (-(d.exponent + k)).toNat) =
        rankOf (d.coefficient * 10 ^ d.exponent.toNat)
          (10 ^ (-d.exponent).toNat) := by
      refine rankOf_congr (by positivity) (by positivity) ?_
      rw [hSplit, mul_assoc, ← pow_add, hUp, pow_add, pow_add]
      ring
    have hRead : rankOfDecimal ⟨m, d.exponent + k⟩ = _ :=
      rankOfDecimal_eq_rankOf (show d.exponent + (k : Int) ≤ 400 by omega)
        (show -400 ≤ d.exponent + (k : Int) + Nat.log2 m + 1 by omega)
    rw [ofDecimal, if_neg hZero, hReduce, hRead]
    unfold nearest?
    simp only [hRank]

/-- A decimal with few digits is read as the double that is nearest to it. -/
theorem ofParts?_eq_ofDecimal (negative : Bool) :
    ofParts? negative d = ofDecimal negative d := by
  rw [ofParts?_eq_nearest? hCoefficient hExponent,
    ofDecimal_eq_nearest? hCoefficient hExponent]

end Reading

end SealedGraph.Binary64
