/-!
# Arithmetic on 64-bit words

Lengths and counts that a seller announces are 64-bit words, and a buyer must
not be misled by arithmetic that wraps around.  The operations here are the
ones used on such words; each has a lemma that states it in natural numbers.

## Main results

* `toNat_saturatingAdd`, `toNat_ceilDiv`, `toNat_max`, `toNat_min`: the
  operations in natural numbers.
* `minus?_eq_some`, `minus?_eq_none`: a checked difference exists exactly when
  it is not negative.
-/

namespace SealedGraph.Machine

/-- The greatest word. -/
def greatest : UInt64 := 18446744073709551615

/-- The sum of two words, or the greatest word if the sum is beyond it. -/
def saturatingAdd (a b : UInt64) : UInt64 :=
  if a + b < a then greatest else a + b

/-- The least integer not below a quotient. -/
def ceilDiv (a b : UInt64) : UInt64 := if a % b = 0 then a / b else a / b + 1

/-- The difference of two words; none if it would be negative. -/
def minus? (a b : UInt64) : Option UInt64 :=
  if b ≤ a then some (a - b) else none

theorem toNat_greatest : greatest.toNat = 18446744073709551615 := by decide

theorem toNat_max (a b : UInt64) : (max a b).toNat = max a.toNat b.toNat := by
  show (if a ≤ b then b else a).toNat = max a.toNat b.toNat
  by_cases hLe : a ≤ b
  · rw [if_pos hLe, Nat.max_eq_right (UInt64.le_iff_toNat_le.mp hLe)]
  · have hLt := mt UInt64.le_iff_toNat_le.mpr hLe
    rw [if_neg hLe, Nat.max_eq_left (by omega)]

theorem toNat_min (a b : UInt64) : (min a b).toNat = min a.toNat b.toNat := by
  show (if a ≤ b then a else b).toNat = min a.toNat b.toNat
  by_cases hLe : a ≤ b
  · rw [if_pos hLe, Nat.min_eq_left (UInt64.le_iff_toNat_le.mp hLe)]
  · have hLt := mt UInt64.le_iff_toNat_le.mpr hLe
    rw [if_neg hLe, Nat.min_eq_right (by omega)]

theorem toNat_saturatingAdd (a b : UInt64) :
    (saturatingAdd a b).toNat = min (a.toNat + b.toNat) greatest.toNat := by
  have ha := a.toNat_lt
  have hb := b.toNat_lt
  unfold saturatingAdd
  by_cases hWrap : a + b < a
  · rw [if_pos hWrap, toNat_greatest]
    rw [UInt64.lt_iff_toNat_lt, UInt64.toNat_add] at hWrap
    omega
  · rw [if_neg hWrap, toNat_greatest, UInt64.toNat_add]
    rw [UInt64.lt_iff_toNat_lt, UInt64.toNat_add] at hWrap
    omega

theorem toNat_ceilDiv {a b : UInt64} (hb : 0 < b.toNat) :
    (ceilDiv a b).toNat = (a.toNat + b.toNat - 1) / b.toNat := by
  have ha := a.toNat_lt
  have hSplit := Nat.div_add_mod a.toNat b.toNat
  have hMod := Nat.mod_lt a.toNat hb
  have hZero : a % b = 0 ↔ a.toNat % b.toNat = 0 := by
    rw [← UInt64.toNat_inj, UInt64.toNat_mod]; rfl
  unfold ceilDiv
  by_cases hExact : a % b = 0
  · rw [if_pos hExact, UInt64.toNat_div]
    have hNat := hZero.mp hExact
    rw [hNat, Nat.add_zero] at hSplit
    rw [← hSplit, Nat.mul_div_cancel_left _ hb]
    symm
    rw [show b.toNat * (a.toNat / b.toNat) + b.toNat - 1 =
      (b.toNat - 1) + b.toNat * (a.toNat / b.toNat) from by omega,
      Nat.add_mul_div_left _ _ hb, Nat.div_eq_of_lt (by omega), Nat.zero_add]
  · rw [if_neg hExact, UInt64.toNat_add, UInt64.toNat_div]
    have hNat : a.toNat % b.toNat ≠ 0 := fun h => hExact (hZero.mpr h)
    have hQuotient : a.toNat / b.toNat < 18446744073709551615 := by
      by_cases hOne : b.toNat = 1
      · rw [hOne, Nat.mod_one] at hNat
        exact absurd rfl hNat
      · have hTwo : 2 ≤ b.toNat := by omega
        have := Nat.div_le_div_left (a := a.toNat) hTwo (by decide)
        omega
    have hStep : (a.toNat + b.toNat - 1) / b.toNat = a.toNat / b.toNat + 1 := by
      conv => lhs; rw [← hSplit]
      rw [show b.toNat * (a.toNat / b.toNat) + a.toNat % b.toNat + b.toNat - 1 =
        (a.toNat % b.toNat - 1) + b.toNat * (a.toNat / b.toNat + 1) from by
          rw [Nat.mul_add]; omega,
        Nat.add_mul_div_left _ _ hb, Nat.div_eq_of_lt (by omega), Nat.zero_add]
    rw [hStep]
    exact Nat.mod_eq_of_lt (by simp; omega)

theorem minus?_eq_some {a b c : UInt64} :
    minus? a b = some c ↔ b.toNat ≤ a.toNat ∧ c.toNat = a.toNat - b.toNat := by
  unfold minus?
  by_cases hLe : b ≤ a
  · have hNat := UInt64.le_iff_toNat_le.mp hLe
    simp only [if_pos hLe, Option.some.injEq, ← UInt64.toNat_inj,
      UInt64.toNat_sub_of_le _ _ hLe]
    exact ⟨fun h => ⟨hNat, h.symm⟩, fun h => h.2.symm⟩
  · have hNat := mt UInt64.le_iff_toNat_le.mpr hLe
    simp [if_neg hLe, hNat]

theorem minus?_eq_none {a b : UInt64} :
    minus? a b = none ↔ a.toNat < b.toNat := by
  unfold minus?
  by_cases hLe : b ≤ a
  · have hNat := UInt64.le_iff_toNat_le.mp hLe
    simp [if_pos hLe, Nat.not_lt.mpr hNat]
  · have hNat := mt UInt64.le_iff_toNat_le.mpr hLe
    simp [if_neg hLe, Nat.lt_of_not_le hNat]

theorem exists_minus? {a b : UInt64} (h : b.toNat ≤ a.toNat) :
    ∃ c, minus? a b = some c ∧ c.toNat = a.toNat - b.toNat := by
  have hNat := UInt64.toNat_sub_of_le a b (UInt64.le_iff_toNat_le.mpr h)
  exact ⟨a - b, minus?_eq_some.mpr ⟨h, hNat⟩, hNat⟩

end SealedGraph.Machine
