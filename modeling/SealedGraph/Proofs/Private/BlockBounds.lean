import SealedGraph.Proofs.Private.BlockArithmetic

/-!
# Bounds on sizes and numbers of blocks

The size of a block is rounded half up from a quotient and a remainder, and
then capped.  With every operation checked, the same computation never leaves
the range of words, for no length and no target: nothing is divided by zero,
no difference is negative, no sum is beyond the greatest word.

There are never fewer blocks than the settings ask for.  Rounding the size
down makes their number larger, but by no more than half of that, as long as
the cap does not take effect; beyond it, every block but the last is as long
as the settings allow.

## Main results

* `checkedSize_eq`, `checkedCount_eq`: no operation on words fails.
* `two_mul_count_le`: rounding adds at most half of the target to the number of
  blocks.
* `count_of_capped`: the number of blocks of the greatest size.
* `block_bounds`: all bounds on announced lengths.
-/

namespace SealedGraph

/-! ## Operations that are checked -/

namespace Machine

/-- The sum of two words; none if it is beyond the greatest word. -/
def plus? (a b : UInt64) : Option UInt64 :=
  if b ≤ greatest - a then some (a + b) else none

/-- The quotient of two words, rounded down; none if the divisor is zero. -/
def quotient? (a b : UInt64) : Option UInt64 :=
  if b = 0 then none else some (a / b)

/-- The remainder of a division; none if the divisor is zero. -/
def remainder? (a b : UInt64) : Option UInt64 :=
  if b = 0 then none else some (a % b)

theorem plus?_eq_some {a b c : UInt64} :
    plus? a b = some c ↔ c.toNat = a.toNat + b.toNat := by
  have ha := a.toNat_lt
  have hb := b.toNat_lt
  have hc := c.toNat_lt
  have hRoom : b ≤ greatest - a ↔ a.toNat + b.toNat < 18446744073709551616 := by
    rw [UInt64.le_iff_toNat_le, UInt64.toNat_sub_of_le _ _
      (UInt64.le_iff_toNat_le.mpr (by rw [toNat_greatest]; omega)),
      toNat_greatest]
    omega
  unfold plus?
  by_cases hFits : b ≤ greatest - a
  · have hNat := hRoom.mp hFits
    rw [if_pos hFits, Option.some.injEq, ← UInt64.toNat_inj, UInt64.toNat_add]
    omega
  · have hNat := mt hRoom.mpr hFits
    rw [if_neg hFits]
    constructor
    · intro h
      cases h
    · intro h
      exact absurd (h ▸ hc) hNat

theorem quotient?_of_pos {a b : UInt64} (h : 0 < b.toNat) :
    quotient? a b = some (a / b) :=
  if_neg fun hZero => Nat.ne_of_gt h (UInt64.toNat_inj.mpr hZero)

theorem remainder?_of_pos {a b : UInt64} (h : 0 < b.toNat) :
    remainder? a b = some (a % b) :=
  if_neg fun hZero => Nat.ne_of_gt h (UInt64.toNat_inj.mpr hZero)

end Machine

namespace Blocks

open Machine

/-- Bytes per block of a payload of an announced length, with every operation
checked. -/
def checkedSize (length : UInt64) (s : PrivacySettings) : Option UInt64 := do
  let quotient ← quotient? length (target s)
  let remainder ← remainder? length (target s)
  let missing ← minus? (target s) remainder
  let rounded ← plus? quotient (if missing ≤ remainder then 1 else 0)
  some (max (min rounded s.maxBlockBytes) 1)

/-- The number of blocks of a payload of an announced length, with every
operation checked. -/
def checkedCount (length : UInt64) (s : PrivacySettings) : Option UInt64 := do
  let size ← checkedSize length s
  let quotient ← quotient? length size
  let remainder ← remainder? length size
  let whole ← plus? quotient (if remainder = 0 then 0 else 1)
  some (max whole s.firstLevelBlocks)

/-! ## No operation fails -/

/-- A quotient by a divisor of two or more is not the greatest word. -/
private theorem plus?_one {a b : UInt64} (hb : 1 < b.toNat) :
    plus? (a / b) 1 = some (a / b + 1) := by
  have ha := a.toNat_lt
  have hHalf : a.toNat / b.toNat ≤ a.toNat / 2 :=
    Nat.div_le_div_left hb (by decide)
  rw [plus?_eq_some, UInt64.toNat_add, UInt64.toNat_div]
  exact Nat.mod_eq_of_lt (by simp; omega)

private theorem plus?_zero (a : UInt64) : plus? a 0 = some a :=
  plus?_eq_some.mpr rfl

/-- A divisor of one leaves no remainder. -/
private theorem one_lt_of_remainder {a b : UInt64} (hb : 0 < b.toNat)
    (h : 0 < (a % b).toNat) :
    1 < b.toNat := by
  rw [UInt64.toNat_mod] at h
  have hLt := Nat.mod_lt a.toNat hb
  omega

theorem checkedSize_eq (length : UInt64) (s : PrivacySettings) :
    checkedSize length s = some (announcedSize length s) := by
  have hTarget := target_pos s
  have hRemainder : (length % target s).toNat < (target s).toNat := by
    rw [UInt64.toNat_mod]
    exact Nat.mod_lt _ hTarget
  have hMissing :
      minus? (target s) (length % target s) =
        some (target s - length % target s) :=
    if_pos (UInt64.le_iff_toNat_le.mpr (Nat.le_of_lt hRemainder))
  have hNat : (target s - length % target s).toNat =
      (target s).toNat - (length % target s).toNat :=
        (minus?_eq_some.mp hMissing).2
  simp only [checkedSize, quotient?_of_pos hTarget,
    remainder?_of_pos hTarget, hMissing, Option.bind_eq_bind, Option.bind_some]
  by_cases hUp : target s - length % target s ≤ length % target s
  · -- What is missing to the divisor is positive, and so is the remainder that
    -- reaches it.
    have hPos : 0 < (length % target s).toNat := by
      rw [UInt64.le_iff_toNat_le] at hUp
      omega
    rw [if_pos hUp, plus?_one (one_lt_of_remainder hTarget hPos),
      Option.bind_some]
    simp only [announcedSize, if_pos hUp]
  · rw [if_neg hUp, plus?_zero, Option.bind_some]
    simp only [announcedSize, if_neg hUp]

theorem checkedCount_eq (length : UInt64) (s : PrivacySettings) :
    checkedCount length s = some (announcedCount length s) := by
  have hSize : 0 < (announcedSize length s).toNat := by
    rw [toNat_announcedSize]
    exact size_pos _ s
  simp only [checkedCount, checkedSize_eq, quotient?_of_pos hSize,
    remainder?_of_pos hSize, Option.bind_eq_bind, Option.bind_some]
  by_cases hExact : length % announcedSize length s = 0
  · rw [if_pos hExact, plus?_zero, Option.bind_some]
    simp only [announcedCount, ceilDiv, if_pos hExact]
  · have hPos : 0 < (length % announcedSize length s).toNat :=
      Nat.pos_of_ne_zero fun h => hExact (UInt64.toNat_inj.mp h)
    rw [if_neg hExact, plus?_one (one_lt_of_remainder hSize hPos),
      Option.bind_some]
    simp only [announcedCount, ceilDiv, if_neg hExact]

/-! ## How many blocks there are -/

section Bounds

variable {s : PrivacySettings} (hValid : s.Valid) {length : Nat}

include hValid

theorem target_eq : (target s).toNat = s.firstLevelBlocks.toNat := by
  rw [toNat_target]
  exact Nat.max_eq_left (firstLevelBlocks_pos hValid)

theorem size_eq (length : Nat) :
    size length s = max 1 (min ((2 * length + s.firstLevelBlocks.toNat) /
      (2 * s.firstLevelBlocks.toNat)) s.maxBlockBytes.toNat) := by
  simp only [size, target_eq hValid]

/-- Where the cap does not take effect, the rounded quotient is the size, unless
it is zero. -/
theorem size_of_uncapped
    (hRoom : length ≤ s.firstLevelBlocks.toNat * s.maxBlockBytes.toNat) :
    size length s = max 1 ((2 * length + s.firstLevelBlocks.toNat) /
      (2 * s.firstLevelBlocks.toNat)) := by
  have hTarget := firstLevelBlocks_pos hValid
  have hRounded :
      (2 * length + s.firstLevelBlocks.toNat) / (2 * s.firstLevelBlocks.toNat) ≤
        s.maxBlockBytes.toNat := by
    refine Nat.le_of_lt_succ ((Nat.div_lt_iff_lt_mul (by omega)).mpr ?_)
    rw [Nat.mul_left_comm, Nat.mul_comm s.maxBlockBytes.toNat.succ,
      Nat.mul_succ]
    omega
  rw [size_eq hValid, Nat.min_eq_left hRounded]

theorem size_of_capped
    (hLong : s.firstLevelBlocks.toNat * s.maxBlockBytes.toNat < length) :
    size length s = s.maxBlockBytes.toNat := by
  have hTarget := firstLevelBlocks_pos hValid
  have hRounded : s.maxBlockBytes.toNat ≤
      (2 * length + s.firstLevelBlocks.toNat) /
        (2 * s.firstLevelBlocks.toNat) := by
    rw [Nat.le_div_iff_mul_le (by omega), Nat.mul_left_comm,
      Nat.mul_comm s.maxBlockBytes.toNat]
    omega
  rw [size_eq hValid, Nat.min_eq_right hRounded,
    Nat.max_eq_right (maxBlockBytes_pos hValid)]

theorem count_of_capped
    (hLong : s.firstLevelBlocks.toNat * s.maxBlockBytes.toNat < length) :
    count length s = (length + s.maxBlockBytes.toNat - 1) /
      s.maxBlockBytes.toNat := by
  have hMax := maxBlockBytes_pos hValid
  have hEnough : s.firstLevelBlocks.toNat ≤
      (length + s.maxBlockBytes.toNat - 1) / s.maxBlockBytes.toNat := by
    rw [Nat.le_div_iff_mul_le hMax]
    omega
  simp only [count, size_of_capped hValid hLong]
  exact Nat.max_eq_left hEnough

end Bounds

/-- A quotient rounded up by a divisor that was itself rounded down, by less
than a half. -/
private theorem two_mul_ceil_le {length target size : Nat}
    (hTarget : 0 < target) (hSize : 0 < size)
    (hRounded : 2 * length < 2 * (target * size) + target) :
    2 * ((length + size - 1) / size) ≤ 3 * target := by
  have hCeil := Nat.div_mul_le_self (length + size - 1) size
  generalize (length + size - 1) / size = blocks at hCeil ⊢
  obtain ⟨t, rfl⟩ := Nat.exists_eq_succ_of_ne_zero (Nat.ne_of_gt hTarget)
  obtain ⟨q, rfl⟩ := Nat.exists_eq_succ_of_ne_zero (Nat.ne_of_gt hSize)
  refine Nat.le_of_not_lt fun hMany => ?_
  have hScaled : (3 * (t + 1) + 1) * (q + 1) ≤ 2 * blocks * (q + 1) :=
    Nat.mul_le_mul_right _ hMany
  have hTwice : 2 * blocks * (q + 1) = 2 * (blocks * (q + 1)) :=
    Nat.mul_assoc _ _ _
  have hLeft :
      (3 * (t + 1) + 1) * (q + 1) = 3 * (t * q) + 3 * t + 4 * q + 4 := by
    simp only [Nat.mul_add, Nat.add_mul, Nat.mul_one, Nat.one_mul,
      Nat.mul_assoc]
    omega
  have hRight : (t + 1) * (q + 1) = t * q + t + q + 1 := by
    simp only [Nat.mul_add, Nat.add_mul, Nat.mul_one, Nat.one_mul]
    omega
  rw [Nat.succ_eq_add_one, Nat.succ_eq_add_one, hRight] at hRounded
  simp only [Nat.succ_eq_add_one] at hCeil
  omega

theorem two_mul_count_le {s : PrivacySettings} (hValid : s.Valid) {length : Nat}
    (hRoom : length ≤ s.firstLevelBlocks.toNat * s.maxBlockBytes.toNat) :
    2 * count length s ≤ 3 * s.firstLevelBlocks.toNat := by
  have hTarget := firstLevelBlocks_pos hValid
  have hSize := size_of_uncapped hValid hRoom
  have hSplit := Nat.lt_mul_div_succ (2 * length + s.firstLevelBlocks.toNat)
    (show 0 < 2 * s.firstLevelBlocks.toNat by omega)
  generalize (2 * length + s.firstLevelBlocks.toNat) /
    (2 * s.firstLevelBlocks.toNat) = rounded
    at hSize hSplit
  rw [Nat.mul_add, Nat.mul_one, Nat.mul_assoc] at hSplit
  have hCeil : 2 * ((length + size length s - 1) / size length s) ≤
      3 * s.firstLevelBlocks.toNat := by
    refine two_mul_ceil_le hTarget (size_pos length s) ?_
    have hMul :
        s.firstLevelBlocks.toNat * rounded ≤
          s.firstLevelBlocks.toNat * size length s :=
      Nat.mul_le_mul_left _ (hSize ▸ Nat.le_max_right _ _)
    omega
  have hCount : count length s =
      max ((length + size length s - 1) / size length s)
        s.firstLevelBlocks.toNat := rfl
  omega

/-! ## Announced lengths -/

/-- On every announced length, the size and the number of blocks are computed
without leaving the range of words, and are those of a payload of that length.
The size is the length over the target, rounded half up, capped, and at least
one.  The blocks are as many as asked for and have room for the payload; they
are at most half as many again if the cap takes no effect, and else as many as
blocks of the greatest size. -/
theorem block_bounds {s : PrivacySettings} (hValid : s.Valid)
    (length : UInt64) :
    checkedSize length s = some (announcedSize length s) ∧
    checkedCount length s = some (announcedCount length s) ∧
    (announcedSize length s).toNat = size length.toNat s ∧
    (announcedCount length s).toNat = count length.toNat s ∧
    (announcedSize length s).toNat =
      max 1 (min
        ((2 * length.toNat + s.firstLevelBlocks.toNat) /
          (2 * s.firstLevelBlocks.toNat))
        s.maxBlockBytes.toNat) ∧
    s.firstLevelBlocks ≤ announcedCount length s ∧
    length.toNat ≤ (announcedCount length s).toNat *
    (announcedSize length s).toNat ∧
    (length.toNat ≤ s.firstLevelBlocks.toNat * s.maxBlockBytes.toNat →
      2 * (announcedCount length s).toNat ≤ 3 * s.firstLevelBlocks.toNat) ∧
    (s.firstLevelBlocks.toNat * s.maxBlockBytes.toNat < length.toNat →
      (announcedCount length s).toNat =
        (length.toNat + s.maxBlockBytes.toNat - 1) /
          s.maxBlockBytes.toNat) := by
  rw [UInt64.le_iff_toNat_le, toNat_announcedSize, toNat_announcedCount]
  exact ⟨checkedSize_eq length s, checkedCount_eq length s, rfl, rfl,
    size_eq hValid _, firstLevelBlocks_le_count _ s, le_count_mul_size _ s,
    two_mul_count_le hValid, count_of_capped hValid⟩

/-- The greatest word as a length, under the default settings: the cap takes
effect.  Where the greatest word is also the target, a block has one byte. -/
theorem block_bounds_greatest :
    checkedSize greatest {} = some 32 ∧
    (announcedCount greatest {}).toNat = (greatest.toNat + 32 - 1) / 32 ∧
    checkedSize (greatest - 1) ⟨greatest, 32, ["private"]⟩ = some 1 ∧
    2 * (announcedCount (greatest - 1) ⟨greatest, 32, ["private"]⟩).toNat ≤
      3 * greatest.toNat := by
  obtain ⟨hSize, _, _, _, _, _, _, _, hCapped⟩ :=
    block_bounds (s := {}) (by decide) greatest
  obtain ⟨hOne, _, _, _, _, _, _, hRoom, _⟩ :=
    block_bounds (s := ⟨greatest, 32, ["private"]⟩) (by decide) (greatest - 1)
  have hFirst : announcedSize greatest {} = 32 := by decide +kernel
  have hSecond :
      announcedSize (greatest - 1) ⟨greatest, 32, ["private"]⟩ = 1 := by
    decide +kernel
  exact ⟨hFirst ▸ hSize, hCapped (by decide), hSecond ▸ hOne, hRoom (by decide)⟩

end Blocks
end SealedGraph
