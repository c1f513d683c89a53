import SealedGraph.Proofs.Private.BlockArithmetic

/-!
# Joining on natural numbers

Leaves are joined with 64-bit arithmetic, and every difference is checked.
Where blocks fit a leaf, no difference is negative and no sum wraps around:
joining on natural numbers, without a check, gives the same payload and the
same errors.

Settings that were never checked may ask for blocks longer than a leaf.  The
two tests before joining do not notice it, and then the first leaf is asked
for more bytes than it has.

## Main results

* `joinFrom_cons`: what happens to one leaf.
* `join_eq_joinExact`: blocks that fit a leaf are joined as on natural numbers.
* `join_of_overlong`, `join_of_not_overlong`: when a leaf is asked for too much.
-/

namespace SealedGraph.Blocks

/-- Takes the bytes that are left of a payload out of its leaves, the first of
which is the block `index`. -/
def takeFrom (size : Nat) : (index left : Nat) → List Word → Except Error Bytes
  | _, _, [] => .ok []
  | index, left, leaf :: rest =>
      let taken := min left size
      if (leaf.bytes.take (32 - taken)).any (· ≠ 0)
        then .error (.mismatch (.dirtyPadding index))
      else (takeFrom size (index + 1) (left - taken) rest).map
        (leaf.bytes.drop (32 - taken) ++ ·)

/-- The payload of an announced length that stands in the given leaves, on
natural numbers. -/
def joinExact (leaves : List Word) (length : UInt64) (s : PrivacySettings) :
    Except Error Bytes :=
  let expected := count length.toNat s
  if leaves.length * min s.maxBlockBytes.toNat 32 < length.toNat then
    .error (.mismatch (.cannotFit length leaves.length))
  else if leaves.length ≠ expected then
    .error (.mismatch (.leafCount (UInt64.ofNat expected) length leaves.length))
  else takeFrom (size length.toNat s) 0 length.toNat leaves

/-! ## Leaf by leaf -/

section Step

variable {length size written : UInt64}

/-- One leaf gives the bytes that are due, as long as these are no more than it
has. -/
theorem joinFrom_cons (hWritten : written.toNat ≤ length.toNat) {taken : Nat}
    (hTaken : taken = min (length.toNat - written.toNat) size.toNat)
    (hFits : taken ≤ 32) (index : Nat) (leaf : Word) (rest : List Word) :
    ∃ next : UInt64, next.toNat = written.toNat + taken ∧
      joinFrom length size index written (leaf :: rest) =
        if (leaf.bytes.take (32 - taken)).any (· ≠ 0)
        then .error (.mismatch (.dirtyPadding index))
        else (joinFrom length size (index + 1) next rest).map
          (leaf.bytes.drop (32 - taken) ++ ·) := by
  have hLength := length.toNat_lt
  obtain ⟨left, hMinus, hLeft⟩ := Machine.exists_minus? hWritten
  have hMin : (min left size).toNat = taken := by
    rw [Machine.toNat_min, hLeft, hTaken]
  obtain ⟨margin, hMargin, hZeros⟩ :=
    Machine.exists_minus? (a := 32) (b := min left size)
      (by rw [hMin]; exact hFits)
  have hCount : margin.toNat = 32 - taken := by
    rw [hZeros, hMin]
    rfl
  refine ⟨written + min left size, ?_, ?_⟩
  · rw [UInt64.toNat_add, hMin]
    omega
  · simp only [joinFrom, hMinus, hMargin, hCount]

/-- The invariant is that no more is written than was announced. -/
theorem joinFrom_eq_takeFrom (hSize : size.toNat ≤ 32) (leaves : List Word) :
    ∀ (index : Nat) (written : UInt64), written.toNat ≤ length.toNat →
      joinFrom length size index written leaves =
        takeFrom size.toNat index (length.toNat - written.toNat) leaves := by
  induction leaves with
  | nil =>
      intro index written _
      rfl
  | cons leaf rest ih =>
      intro index written hWritten
      obtain ⟨next, hNext, hStep⟩ := joinFrom_cons hWritten rfl
        (Nat.le_trans (Nat.min_le_right _ _) hSize) index leaf rest
      have hRest := ih (index + 1) next (by omega)
      have hLeft : length.toNat - next.toNat = length.toNat - written.toNat -
          min (length.toNat - written.toNat) size.toNat := by omega
      rw [hStep, hRest, hLeft]
      rfl

/-- A first block that is longer than a leaf cannot be taken out of it. -/
theorem joinFrom_of_minus? (h : Machine.minus? 32 (min length size) = none)
    (index : Nat) (leaf : Word) (rest : List Word) :
    joinFrom length size index 0 (leaf :: rest) = .error .outOfRange := by
  have hMinus : Machine.minus? length 0 = some length :=
    Machine.minus?_eq_some.mpr ⟨Nat.zero_le _, rfl⟩
  simp only [joinFrom, hMinus, h]

end Step

/-! ## All leaves -/

section Join

variable {leaves : List Word} {length : UInt64} {s : PrivacySettings}

/-- The leaves are as many as the payload has blocks, and there is room for it
in so many leaves; but a block is longer than a leaf. -/
def Overlong (leaves : List Word) (length : UInt64) (s : PrivacySettings) :
    Prop :=
  length.toNat ≤ leaves.length * min s.maxBlockBytes.toNat 32 ∧
    leaves.length = count length.toNat s ∧ 32 < size length.toNat s

instance (leaves : List Word) (length : UInt64) (s : PrivacySettings) :
    Decidable (Overlong leaves length s) := by
  unfold Overlong
  infer_instance

/-- A block has room for one byte, or for no more than the payload has. -/
theorem size_le_length (length : Nat) (s : PrivacySettings) :
    size length s ≤ max 1 length := by
  have hTarget := target_pos s
  have hRounded :
      (2 * length + (target s).toNat) / (2 * (target s).toNat) ≤ length := by
    refine Nat.le_of_lt_succ ((Nat.div_lt_iff_lt_mul (by omega)).mpr ?_)
    have hMul : length ≤ length * (target s).toNat :=
      Nat.le_mul_of_pos_right _ hTarget
    calc 2 * length + (target s).toNat
        < 2 * (length * (target s).toNat) + 2 * (target s).toNat := by omega
      _ = (length + 1) * (2 * (target s).toNat) := by
          rw [Nat.add_mul, Nat.one_mul, Nat.mul_left_comm]
  exact Nat.max_le.mpr ⟨Nat.le_max_left _ _,
    Nat.le_trans (Nat.min_le_left _ _)
      (Nat.le_trans hRounded (Nat.le_max_right _ _))⟩

theorem lt_maxBlockBytes_of_lt_size {length : Nat} (h : 32 < size length s) :
    32 < s.maxBlockBytes.toNat := by
  have hSize :
      32 < max 1 (min ((2 * length + (target s).toNat) / (2 * (target s).toNat))
        s.maxBlockBytes.toNat) := h
  omega

/-- The two tests before joining decide as on natural numbers: where the product
stops at the greatest 64-bit number, it is not below any length. -/
theorem join_eq (leaves : List Word) (length : UInt64) (s : PrivacySettings) :
    join leaves length s =
      if leaves.length * min s.maxBlockBytes.toNat 32 < length.toNat then
        .error (.mismatch (.cannotFit length leaves.length))
      else if leaves.length ≠ count length.toNat s then
        .error
          (.mismatch
            (.leafCount (UInt64.ofNat (count length.toNat s))
              length leaves.length))
      else joinFrom length (announcedSize length s) 0 0 leaves := by
  have hLength := length.toNat_lt
  have hExpected := announcedCount_eq length s
  have hBack :
      (UInt64.ofNat (count length.toNat s)).toNat = count length.toNat s := by
    rw [← hExpected, toNat_announcedCount]
  have hMin : (min s.maxBlockBytes 32).toNat = min s.maxBlockBytes.toNat 32 :=
    Machine.toNat_min s.maxBlockBytes 32
  have hRoom :
      min (leaves.length * (min s.maxBlockBytes 32).toNat)
        Machine.greatest.toNat <
      length.toNat ↔
      leaves.length * min s.maxBlockBytes.toNat 32 < length.toNat := by
    rw [hMin, Machine.toNat_greatest]
    omega
  unfold join
  simp only [hRoom, hExpected, hBack]

theorem join_eq_joinExact (hFits : size length.toNat s ≤ 32) :
    join leaves length s = joinExact leaves length s := by
  have hSize := toNat_announcedSize length s
  have hTake : joinFrom length (announcedSize length s) 0 0 leaves =
      takeFrom (size length.toNat s) 0 length.toNat leaves := by
    rw [← hSize] at hFits ⊢
    exact joinFrom_eq_takeFrom hFits leaves 0 0 (Nat.zero_le _)
  rw [join_eq, hTake]
  rfl

/-- The bytes that the first leaf is asked for, against those that it has. -/
theorem minus?_of_overlong (h : Overlong leaves length s) :
    Machine.minus? 32 (min length (announcedSize length s)) = none := by
  have hSize := toNat_announcedSize length s
  have hLength := size_le_length length.toNat s
  have hLong := h.2.2
  have hWidth : (32 : UInt64).toNat = 32 := rfl
  rw [Machine.minus?_eq_none, Machine.toNat_min, hSize, hWidth]
  omega

theorem join_of_overlong (h : Overlong leaves length s) :
    join leaves length s = .error .outOfRange := by
  obtain ⟨hRoom, hCount, hLong⟩ := id h
  rw [join_eq, if_neg (Nat.not_lt.mpr hRoom), if_neg (not_not_intro hCount)]
  cases leaves with
  | nil =>
      have hLength := size_le_length length.toNat s
      rw [List.length_nil, Nat.zero_mul] at hRoom
      omega
  | cons leaf rest =>
      exact joinFrom_of_minus? (minus?_of_overlong h) 0 leaf rest

theorem join_of_not_overlong (h : ¬ Overlong leaves length s) :
    join leaves length s = joinExact leaves length s := by
  by_cases hFits : size length.toNat s ≤ 32
  · exact join_eq_joinExact hFits
  · -- One of the two tests fails, and both ways of joining end there.
    rw [join_eq]
    unfold joinExact
    by_cases hRoom : leaves.length * min s.maxBlockBytes.toNat 32 < length.toNat
    · simp only [if_pos hRoom]
    · by_cases hCount : leaves.length = count length.toNat s
      · exact absurd ⟨Nat.not_lt.mp hRoom, hCount, Nat.lt_of_not_le hFits⟩ h
      · simp only [if_neg hRoom, if_pos hCount]

end Join
end SealedGraph.Blocks
