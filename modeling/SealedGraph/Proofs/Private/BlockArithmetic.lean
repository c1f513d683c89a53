import SealedGraph.Private.Blocks

/-!
# Sizes and numbers of blocks

What a buyer computes on announced 64-bit lengths is what a seller computes on
the payload: rounding, the number of blocks and the bounds on both agree, and
no step on words wraps around.

## Main results

* `toNat_announcedSize`, `toNat_announcedCount`: words and natural numbers
  agree.
* `le_count_mul_size`: the blocks have room for the whole payload.
-/

namespace SealedGraph.Blocks

/-! ## Bounds -/

theorem toNat_target (s : PrivacySettings) :
    (target s).toNat = max s.firstLevelBlocks.toNat 1 :=
  Machine.toNat_max s.firstLevelBlocks 1

theorem target_pos (s : PrivacySettings) : 0 < (target s).toNat := by
  rw [toNat_target]
  exact Nat.lt_of_lt_of_le Nat.zero_lt_one (Nat.le_max_right _ _)

theorem size_pos (length : Nat) (s : PrivacySettings) : 0 < size length s :=
  Nat.lt_of_lt_of_le Nat.zero_lt_one (Nat.le_max_left _ _)

theorem maxBlockBytes_pos {s : PrivacySettings} (hValid : s.Valid) :
    0 < s.maxBlockBytes.toNat := by
  have hNe : s.maxBlockBytes.toNat ≠ 0 :=
    fun h => hValid.2.1 (UInt64.toNat_inj.mp h)
  omega

theorem maxBlockBytes_le {s : PrivacySettings} (hValid : s.Valid) :
    s.maxBlockBytes.toNat ≤ 32 :=
  UInt64.le_iff_toNat_le.mp hValid.2.2.1

theorem firstLevelBlocks_pos {s : PrivacySettings} (hValid : s.Valid) :
    0 < s.firstLevelBlocks.toNat := by
  have hNe : s.firstLevelBlocks.toNat ≠ 0 :=
    fun h => hValid.1 (UInt64.toNat_inj.mp h)
  omega

theorem size_le_maxBlockBytes (length : Nat) {s : PrivacySettings}
    (hValid : s.Valid) :
    size length s ≤ s.maxBlockBytes.toNat :=
  Nat.max_le.mpr ⟨maxBlockBytes_pos hValid, Nat.min_le_right _ _⟩

theorem size_le (length : Nat) {s : PrivacySettings} (hValid : s.Valid) :
    size length s ≤ 32 :=
  Nat.le_trans (size_le_maxBlockBytes length hValid) (maxBlockBytes_le hValid)

theorem firstLevelBlocks_le_count (length : Nat) (s : PrivacySettings) :
    s.firstLevelBlocks.toNat ≤ count length s :=
  Nat.le_max_right _ _

theorem count_pos (length : Nat) {s : PrivacySettings} (hValid : s.Valid) :
    0 < count length s :=
  Nat.lt_of_lt_of_le (firstLevelBlocks_pos hValid)
    (firstLevelBlocks_le_count length s)

/-- A quotient rounded up, times the divisor, is not below the dividend. -/
private theorem le_ceil_mul (length : Nat) {size : Nat} (hSize : 0 < size) :
    length ≤ (length + size - 1) / size * size := by
  have hSplit := Nat.div_add_mod (length + size - 1) size
  have hMod := Nat.mod_lt (length + size - 1) hSize
  rw [Nat.mul_comm] at hSplit
  omega

theorem le_count_mul_size (length : Nat) (s : PrivacySettings) :
    length ≤ count length s * size length s :=
  Nat.le_trans (le_ceil_mul length (size_pos length s))
    (Nat.mul_le_mul_right _ (Nat.le_max_left _ _))

/-! ## Rounding on words -/

/-- Rounding half up by comparing the remainder with what is missing to the
divisor. -/
private theorem rounded_eq (length : Nat) {target : Nat}
    (hTarget : 0 < target) :
    (2 * length + target) / (2 * target) =
      if target - length % target ≤ length % target then length / target + 1
      else length / target := by
  have hSplit := Nat.div_add_mod length target
  have hMod := Nat.mod_lt length hTarget
  generalize length / target = quotient at hSplit ⊢
  generalize length % target = remainder at hSplit hMod ⊢
  have hDouble :
      2 * length + target =
        2 * target * quotient + (2 * remainder + target) := by
    rw [← hSplit, Nat.mul_add, Nat.mul_assoc]
    omega
  rw [hDouble, Nat.mul_add_div (by omega)]
  by_cases hUp : target - remainder ≤ remainder
  · rw [if_pos hUp]
    have hOne : (2 * remainder + target) / (2 * target) = 1 :=
      Nat.div_eq_of_lt_le (by omega) (by omega)
    rw [hOne]
  · rw [if_neg hUp, Nat.div_eq_of_lt (by omega), Nat.add_zero]

theorem toNat_announcedSize (length : UInt64) (s : PrivacySettings) :
    (announcedSize length s).toNat = size length.toNat s := by
  have hTarget := target_pos s
  have hLength := length.toNat_lt
  have hMod := Nat.mod_lt length.toNat hTarget
  have hRemainder :
      (length % target s).toNat = length.toNat % (target s).toNat :=
    UInt64.toNat_mod _ _
  have hMissing : (target s - length % target s).toNat =
      (target s).toNat - length.toNat % (target s).toNat := by
    rw [UInt64.toNat_sub_of_le _ _ (UInt64.le_iff_toNat_le.mpr (by omega)),
      hRemainder]
  have hUp : (target s - length % target s ≤ length % target s) ↔
      ((target s).toNat - length.toNat % (target s).toNat ≤
        length.toNat % (target s).toNat) := by
    rw [UInt64.le_iff_toNat_le, hMissing, hRemainder]
  have hRounded : (if target s - length % target s ≤ length % target s
      then length / target s + 1 else length / target s).toNat =
      (2 * length.toNat + (target s).toNat) / (2 * (target s).toNat) := by
    rw [rounded_eq _ hTarget]
    by_cases h : target s - length % target s ≤ length % target s
    · -- Rounding up needs a remainder, hence a divisor of two or more: the
      -- quotient is not huge.
      have hNat := hUp.mp h
      have hQuotient : length.toNat / (target s).toNat ≤ length.toNat / 2 :=
        Nat.div_le_div_left (by omega) (by decide)
      rw [if_pos h, if_pos hNat, UInt64.toNat_add, UInt64.toNat_div]
      exact Nat.mod_eq_of_lt (by simp; omega)
    · rw [if_neg h, if_neg (mt hUp.mpr h), UInt64.toNat_div]
  unfold announcedSize size
  simp only [Machine.toNat_max, Machine.toNat_min, hRounded]
  exact Nat.max_comm _ _

theorem toNat_announcedCount (length : UInt64) (s : PrivacySettings) :
    (announcedCount length s).toNat = count length.toNat s := by
  have hSize := toNat_announcedSize length s
  have hPos := size_pos length.toNat s
  unfold announcedCount count
  simp only [Machine.toNat_max]
  rw [Machine.toNat_ceilDiv (by omega), hSize]

theorem announcedCount_eq (length : UInt64) (s : PrivacySettings) :
    announcedCount length s = UInt64.ofNat (count length.toNat s) := by
  rw [← toNat_announcedCount, UInt64.ofNat_toNat]

end SealedGraph.Blocks
