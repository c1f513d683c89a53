import Mathlib
import SealedGraph.Decimal.Shortest

/-!
# Doubles read back from their decimals

The exact decimal of a finite double denotes that double, and so does the
shortest one.  Reading looks at a decimal only after its trailing zeros have
moved into the exponent, so that it does not matter how many of them are
written.

## Main results

* `Decimal.reduce_mul_pow`: trailing zeros are as good as an exponent.
* `Binary64.ofDecimal_exact`: the exact decimal reads back.
* `Binary64.ofDecimal_of_reduce_eq`: so does whatever has its reduced form.
-/

namespace SealedGraph

namespace Decimal

/-! ## Trailing zeros -/

private theorem reduceUpTo_mul_pow {m : Nat} (hm : m % 10 ≠ 0) :
    ∀ (fuel k : Nat) (e : Int),
    k ≤ fuel → reduceUpTo fuel ⟨m * 10 ^ k, e⟩ = ⟨m, e + k⟩
  | 0, k, e, hk => by
      obtain rfl : k = 0 := by omega
      simp [reduceUpTo]
  | fuel + 1, 0, e, _ => by simp [reduceUpTo, hm]
  | fuel + 1, k + 1, e, hk => by
      have hPos : m * 10 ^ k ≠ 0 := by
        have hNe : m ≠ 0 := fun h => hm (by rw [h])
        positivity
      have hSplit : m * 10 ^ (k + 1) = m * 10 ^ k * 10 := by
        rw [pow_succ, mul_assoc]
      have hZeros : m * 10 ^ (k + 1) ≠ 0 ∧ m * 10 ^ (k + 1) % 10 = 0 := by
        rw [hSplit]
        exact ⟨by omega, by omega⟩
      rw [reduceUpTo, if_pos hZeros, hSplit, Nat.mul_div_cancel _ (by decide),
        reduceUpTo_mul_pow hm fuel k (e + 1) (by omega)]
      congr 1
      push_cast
      omega

theorem reduce_of_last_ne_zero {m : Nat} (hm : m % 10 ≠ 0) (k : Nat) (e : Int) :
    reduce ⟨m * 10 ^ k, e⟩ = ⟨m, e + k⟩ := by
  have hNe : m ≠ 0 := fun h => hm (by rw [h])
  have hPow : k < 10 ^ k := Nat.lt_pow_self (by decide)
  have hFuel : 10 ^ k ≤ m * 10 ^ k :=
    Nat.le_mul_of_pos_left _ (Nat.pos_of_ne_zero hNe)
  have hPos : m * 10 ^ k ≠ 0 := by omega
  rw [reduce, if_neg hPos]
  exact reduceUpTo_mul_pow hm _ k e
    (Nat.le_of_lt (Nat.lt_of_lt_of_le hPow hFuel))

/-- A coefficient other than zero is a number with a last digit other than zero,
and zeros. -/
theorem exists_last_ne_zero {c : Nat} (hc : c ≠ 0) :
    ∃ m k, c = m * 10 ^ k ∧ m % 10 ≠ 0 := by
  obtain ⟨k, m, hm, hSplit⟩ :=
    Nat.exists_eq_pow_mul_and_not_dvd hc 10 (by decide)
  exact ⟨m, k, by rw [hSplit, mul_comm], fun h => hm (Nat.dvd_of_mod_eq_zero h)⟩

theorem reduce_mul_pow (c k : Nat) (e : Int) :
    reduce ⟨c * 10 ^ k, e⟩ = reduce ⟨c, e + k⟩ := by
  by_cases hc : c = 0
  · subst hc
    simp [reduce]
  · obtain ⟨m, j, rfl, hm⟩ := exists_last_ne_zero hc
    rw [mul_assoc, ← pow_add, reduce_of_last_ne_zero hm,
      reduce_of_last_ne_zero hm]
    congr 1
    push_cast
    omega

theorem coefficient_reduce (d : Decimal) :
    d.reduce.coefficient = 0 ↔ d.coefficient = 0 := by
  by_cases hc : d.coefficient = 0
  · simp [reduce, hc]
  · obtain ⟨m, k, hSplit, hm⟩ := exists_last_ne_zero hc
    have hReduce := reduce_of_last_ne_zero hm k d.exponent
    rw [← hSplit] at hReduce
    rw [hReduce]
    simp only [hc, iff_false]
    exact fun h => hm (by rw [h])

theorem reduce_reduce (d : Decimal) : d.reduce.reduce = d.reduce := by
  by_cases hc : d.coefficient = 0
  · simp [reduce, hc]
  · obtain ⟨m, k, hSplit, hm⟩ := exists_last_ne_zero hc
    have hReduce := reduce_of_last_ne_zero hm k d.exponent
    rw [← hSplit] at hReduce
    rw [hReduce]
    simpa using reduce_of_last_ne_zero hm 0 (d.exponent + k)

/-- The exponent of a reduced zero is 0. -/
theorem exponent_reduce_of_zero {d : Decimal} (hc : d.reduce.coefficient = 0) :
    d.reduce.exponent = 0 := by
  rw [reduce, if_pos ((coefficient_reduce d).mp hc)]

/-! ## Values -/

/-- A decimal is `units` times the least positive double, which is
`2 ^ (-1074)`. -/
def Measures (d : Decimal) (units : Nat) : Prop :=
  d.coefficient * 10 ^ d.exponent.toNat * 2 ^ 1074 =
    units * 10 ^ (-d.exponent).toNat

/-- What holds of the value of a decimal holds of its reduced form. -/
theorem measures_reduce {d : Decimal} {units : Nat} (h : d.Measures units) :
    d.reduce.Measures units := by
  by_cases hc : d.coefficient = 0
  · have hUnits : units = 0 := by
      rw [Measures, hc, Nat.zero_mul, Nat.zero_mul] at h
      rcases Nat.mul_eq_zero.mp h.symm with hZero | hPower
      · exact hZero
      · exact absurd hPower (by positivity)
    rw [reduce, if_pos hc, hUnits, Measures, Nat.zero_mul, Nat.zero_mul,
      Nat.zero_mul]
  · obtain ⟨m, k, hSplit, hm⟩ := exists_last_ne_zero hc
    have hReduce := reduce_of_last_ne_zero hm k d.exponent
    rw [← hSplit] at hReduce
    rw [hReduce]
    unfold Measures at h ⊢
    rw [hSplit] at h
    generalize 2 ^ 1074 = scale at h ⊢
    -- Both sides are compared after the powers of ten that the two forms lack.
    have hUp : k + d.exponent.toNat + (-(d.exponent + k)).toNat =
        (d.exponent + k).toNat + (-d.exponent).toNat := by omega
    have hPos : 0 < 10 ^ (-d.exponent).toNat := by positivity
    refine Nat.eq_of_mul_eq_mul_right hPos ?_
    calc m * 10 ^ (d.exponent + k).toNat * scale * 10 ^ (-d.exponent).toNat
        = m * scale * 10 ^ ((d.exponent + k).toNat + (-d.exponent).toNat) := by
          rw [pow_add]; ring
      _ = m * scale * 10 ^
        (k + d.exponent.toNat + (-(d.exponent + k)).toNat) := by rw [hUp]
      _ = m * 10 ^ k * 10 ^ d.exponent.toNat * scale * 10 ^
        (-(d.exponent + k)).toNat := by
          rw [pow_add, pow_add]; ring
      _ = units * 10 ^ (-d.exponent).toNat * 10 ^
        (-(d.exponent + k)).toNat := by rw [h]
      _ = units * 10 ^ (-(d.exponent + k)).toNat * 10 ^
        (-d.exponent).toNat := by ring

end Decimal

namespace Binary64

open Decimal

/-! ## Rounding what needs no rounding -/

theorem roundQuotient_mul (q : Nat) {den : Nat} (hDen : 0 < den) :
    roundQuotient (q * den) den = q := by
  simp [roundQuotient, Nat.mul_div_cancel q hDen, hDen]

private theorem natPow_eq (base exponent : Nat) :
    Nat.pow base exponent = base ^ exponent := rfl

theorem binade_eq : binade = 2 ^ 52 := by decide

theorem rank_eq (x : Binary64) : x.rank = x.scale * binade + x.significand := by
  have hDiv := Nat.div_mul_le_self x.rank binade
  have hScale : x.scale * binade ≤ x.rank / binade * binade :=
    Nat.mul_le_mul_right _ (Nat.sub_le _ _)
  unfold significand
  omega

theorem significand_lt (x : Binary64) : x.significand < 2 * binade := by
  have hBinade : binade = 4503599627370496 := rfl
  unfold significand scale
  rw [hBinade]
  omega

/-- Above the first two binades the significand is normal. -/
theorem binade_le_significand {x : Binary64} (hScale : x.scale ≠ 0) :
    binade ≤ x.significand := by
  have hBinade : binade = 4503599627370496 := rfl
  unfold significand
  unfold scale at hScale ⊢
  rw [hBinade] at hScale ⊢
  omega

theorem scale_lt (x : Binary64) : x.scale < 2046 := by
  have hRank := x.rank_lt
  have hBinade : binade = 4503599627370496 := rfl
  unfold scale
  rw [hBinade] at hRank ⊢
  omega

/-- The scale that reading chooses is the one that the significand was taken
at. -/
theorem log2_units (x : Binary64) (hPos : x.significand ≠ 0) :
    Nat.log2 (x.significand * 2 ^ x.scale) - 52 = x.scale := by
  have hLt := x.significand_lt
  by_cases hScale : x.scale = 0
  · rw [hScale, pow_zero, mul_one]
    have hLog : Nat.log2 x.significand < 53 := by
      rw [Nat.log2_lt hPos, pow_succ, ← binade_eq]
      omega
    omega
  · have hLe := binade_le_significand hScale
    have hPow : 0 < 2 ^ x.scale := by positivity
    have hLog : Nat.log2 (x.significand * 2 ^ x.scale) = 52 + x.scale := by
      rw [Nat.log2_eq_iff (by positivity)]
      constructor
      · rw [pow_add, ← binade_eq]
        exact Nat.mul_le_mul_right _ hLe
      · rw [show 52 + x.scale + 1 = 53 + x.scale from by omega, pow_add,
          pow_succ, ← binade_eq]
        exact Nat.mul_lt_mul_of_pos_right (by omega) hPow
    omega

/-- A quotient that is a double has the rank of that double. -/
theorem rankOf_eq {x : Binary64} {num den : Nat} (hDen : 0 < den)
    (hPos : x.significand ≠ 0)
    (hUnits : num * 2 ^ 1074 = x.significand * 2 ^ x.scale * den) :
    rankOf num den = x.rank := by
  have hScale : Nat.log2 (num * 2 ^ 1074 / den) - 52 = x.scale := by
    rw [hUnits, Nat.mul_div_cancel _ hDen, log2_units x hPos]
  have hRound :
      roundQuotient (num * 2 ^ 1074) (den * 2 ^ x.scale) = x.significand := by
    rw [hUnits, mul_assoc, mul_comm (2 ^ x.scale) den]
    exact roundQuotient_mul _ (by positivity)
  unfold rankOf
  simp only [natPow_eq]
  rw [hScale, hRound, ← rank_eq x]

/-! ## Exact decimals -/

theorem measures_exact (x : Binary64) :
    x.exact.Measures (x.significand * 2 ^ x.scale) := by
  unfold exact Measures
  by_cases hScale : 1074 ≤ x.scale
  · rw [if_pos hScale]
    have hSplit : 2 ^ x.scale = 2 ^ (x.scale - 1074) * 2 ^ 1074 := by
      rw [← pow_add, Nat.sub_add_cancel hScale]
    simp only [natPow_eq, hSplit, Int.toNat_zero, Int.neg_zero, pow_zero,
      mul_one, mul_assoc]
  · rw [if_neg hScale]
    obtain ⟨places, hPlaces⟩ : ∃ places, places + x.scale = 1074 :=
      ⟨1074 - x.scale, Nat.sub_add_cancel (by omega)⟩
    have hTen : 10 ^ places = 5 ^ places * 2 ^ places := mul_pow 5 2 places
    rw [show 1074 - x.scale = places from by omega]
    simp only [natPow_eq, Int.neg_neg, Int.toNat_neg_natCast, Int.toNat_natCast,
      pow_zero, mul_one, ← hPlaces, pow_add, hTen]
    ring

section Range

variable {x : Binary64} {d : Decimal}

private theorem pow_two_le_pow_ten (n : Nat) : 2 ^ (3 * n) ≤ 10 ^ n := by
  rw [pow_mul]
  exact Nat.pow_le_pow_left (by decide) n

private theorem add_lt_of_pow_mul_le {a b c d value : Nat}
    (hLow : 2 ^ a * 2 ^ b ≤ value) (hHigh : value < 2 ^ c * 2 ^ d) :
    a + b < c + d := by
  rw [← pow_add] at hLow hHigh
  exact (Nat.pow_lt_pow_iff_right (by decide)).mp
    (Nat.lt_of_le_of_lt hLow hHigh)

/-- Doubles are below the powers of ten that reading does not compute. -/
theorem exponent_le (hMeasures : d.Measures (x.significand * 2 ^ x.scale))
    (hCoefficient : d.coefficient ≠ 0) : d.exponent ≤ 400 := by
  by_contra hLarge
  have hZero : (-d.exponent).toNat = 0 := by omega
  rw [Measures, hZero, pow_zero, mul_one] at hMeasures
  generalize hn : d.exponent.toNat = n at hMeasures
  have hLow : 2 ^ (3 * n) * 2 ^ 1074 ≤ x.significand * 2 ^ x.scale := by
    rw [← hMeasures]
    refine Nat.mul_le_mul_right _ ?_
    exact Nat.le_trans (pow_two_le_pow_ten n)
      (Nat.le_mul_of_pos_left _ (Nat.pos_of_ne_zero hCoefficient))
  have hHigh : x.significand * 2 ^ x.scale < 2 ^ 53 * 2 ^ x.scale := by
    have hSignificand : x.significand < 2 ^ 53 := by
      have hLt := x.significand_lt
      rw [binade_eq] at hLt
      omega
    exact Nat.mul_lt_mul_of_pos_right hSignificand (by positivity)
  have hExponents := add_lt_of_pow_mul_le hLow hHigh
  have hScale := x.scale_lt
  omega

/-- Doubles other than zero are above the decimals that reading takes for
zero. -/
theorem le_exponent_add_log2
    (hMeasures : d.Measures (x.significand * 2 ^ x.scale))
    (hSignificand : x.significand ≠ 0) :
    -400 ≤ d.exponent + Nat.log2 d.coefficient + 1 := by
  by_cases hSign : -400 ≤ d.exponent
  · omega
  · have hZero : d.exponent.toNat = 0 := by omega
    rw [Measures, hZero, pow_zero, mul_one] at hMeasures
    generalize hn : (-d.exponent).toNat = n at hMeasures
    have hLow : 2 ^ (3 * n) * 2 ^ 0 ≤ x.significand * 2 ^ x.scale * 10 ^ n := by
      have hPos : 0 < x.significand * 2 ^ x.scale := by positivity
      rw [pow_zero, mul_one]
      exact Nat.le_trans (pow_two_le_pow_ten n) (Nat.le_mul_of_pos_left _ hPos)
    have hHigh : x.significand * 2 ^ x.scale * 10 ^ n <
        2 ^ (Nat.log2 d.coefficient + 1) * 2 ^ 1074 := by
      rw [← hMeasures]
      exact Nat.mul_lt_mul_of_pos_right Nat.lt_log2_self (by positivity)
    have hExponents := add_lt_of_pow_mul_le hLow hHigh
    omega

/-- A decimal whose power of ten is computed has the rank of its value. -/
theorem rankOfDecimal_eq_rankOf (hHigh : d.exponent ≤ 400)
    (hLow : -400 ≤ d.exponent + Nat.log2 d.coefficient + 1) :
    rankOfDecimal d = some (rankOf (d.coefficient * 10 ^ d.exponent.toNat)
      (10 ^ (-d.exponent).toNat)) := by
  unfold rankOfDecimal
  rw [if_neg (by omega), if_neg (by omega)]
  by_cases hSign : 0 ≤ d.exponent
  · have hZero : (-d.exponent).toNat = 0 := by omega
    rw [if_pos hSign, hZero, pow_zero, natPow_eq]
  · have hZero : d.exponent.toNat = 0 := by omega
    rw [if_neg hSign, hZero, pow_zero, mul_one, natPow_eq]

theorem rankOfDecimal_eq (hMeasures : d.Measures (x.significand * 2 ^ x.scale))
    (hSignificand : x.significand ≠ 0) (hCoefficient : d.coefficient ≠ 0) :
    rankOfDecimal d = some x.rank := by
  have hHigh := exponent_le hMeasures hCoefficient
  have hLow := le_exponent_add_log2 hMeasures hSignificand
  rw [rankOfDecimal_eq_rankOf hHigh hLow,
    rankOf_eq (by positivity) hSignificand hMeasures]

end Range

theorem coefficient_exact (x : Binary64) :
    x.exact.coefficient = 0 ↔ x.significand = 0 := by
  unfold exact
  split <;> simp

theorem ofDecimal_exact (x : Binary64) :
    ofDecimal x.negative x.exact = some x := by
  by_cases hZero : x.significand = 0
  · have hScale : x.scale = 0 := by
      by_contra hScale
      have hLe := binade_le_significand hScale
      rw [hZero] at hLe
      exact absurd hLe (by decide)
    have hRank : x.rank = 0 := by rw [rank_eq, hZero, hScale, Nat.zero_mul]
    rw [ofDecimal, if_pos ((coefficient_exact x).mpr hZero)]
    obtain ⟨negative, rank, hLt⟩ := x
    subst hRank
    rfl
  · have hCoefficient := mt (coefficient_exact x).mp hZero
    have hReduced := mt (coefficient_reduce x.exact).mp hCoefficient
    rw [ofDecimal, if_neg hCoefficient,
      rankOfDecimal_eq (measures_reduce x.measures_exact) hZero hReduced]
    exact dif_pos x.rank_lt

/-- Reading a decimal looks only at its reduced form. -/
theorem ofDecimal_congr (negative : Bool) {d e : Decimal}
    (hReduce : d.reduce = e.reduce) :
    ofDecimal negative d = ofDecimal negative e := by
  have hZero : d.coefficient = 0 ↔ e.coefficient = 0 := by
    rw [← coefficient_reduce d, hReduce, coefficient_reduce e]
  unfold ofDecimal
  simp only [hZero, hReduce]

theorem ofDecimal_of_reduce_eq {x : Binary64} {d : Decimal}
    (hReduce : d.reduce = x.shortest.reduce) :
    ofDecimal x.negative d = some x := by
  rw [ofDecimal_congr x.negative hReduce,
    ofDecimal_shortest x (ofDecimal_exact x)]

end Binary64
end SealedGraph
