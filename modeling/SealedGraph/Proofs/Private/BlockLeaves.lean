import SealedGraph.Proofs.Private.ExactJoining

/-!
# Leaves of payloads

A payload is cut into blocks, and each block becomes a leaf.  Under valid
settings this never fails, a buyer who is told the length joins the leaves to
the payload again, and a payload without zero bytes can be read off its leaves
even by those who are not told its length.

## Main results

* `splitLeaves_eq_ok`: valid settings split every payload.
* `join_splitLeaves`: joining the leaves gives the payload back.
* `splitLeaves_of_join`: nothing but the leaves of a payload is joined to it.
* `payload_of_leaves`: leaves determine a payload without zero bytes.
-/

namespace SealedGraph.Blocks

/-! ## Cutting -/

@[simp] theorem length_cut (size count : Nat) (bytes : Bytes) :
    (cut size count bytes).length = count := by
  induction count generalizing bytes with
  | zero => rfl
  | succ count ih => rw [cut, List.length_cons, ih]

theorem flatten_cut (size : Nat) : ∀ (count : Nat) (bytes : Bytes),
    bytes.length ≤ count * size → (cut size count bytes).flatten = bytes
  | 0, bytes, hRoom => by
      rw [Nat.zero_mul] at hRoom
      exact (List.length_eq_zero_iff.mp (Nat.le_zero.mp hRoom)).symm
  | count + 1, bytes, hRoom => by
      have hRest : (bytes.drop size).length ≤ count * size := by
        rw [Nat.add_mul, Nat.one_mul] at hRoom
        rw [List.length_drop]
        omega
      rw [cut, List.flatten_cons, flatten_cut size count _ hRest,
        List.take_append_drop]

theorem length_le_of_mem_cut {size : Nat} {block : Bytes} :
    ∀ {count : Nat} {bytes : Bytes},
    block ∈ cut size count bytes → block.length ≤ size
  | 0, _, h => by simp [cut] at h
  | count + 1, bytes, h => by
      rw [cut, List.mem_cons] at h
      rcases h with rfl | h
      · exact List.length_take_le _ _
      · exact length_le_of_mem_cut h

/-! ## Leaves -/

/-- A block with zeros before it up to the width of a word. -/
def padded (block : Bytes) : Bytes :=
  List.replicate (32 - block.length) 0 ++ block

theorem leaf_eq_ok {block : Bytes} (hFits : block.length ≤ 32) :
    ∃ word, leaf block = .ok word ∧ word.bytes = padded block := by
  refine ⟨⟨padded block, ?_⟩, ?_, rfl⟩
  · rw [padded, List.length_append, List.length_replicate]
    omega
  · rw [leaf, Word.leftPad?, dif_pos hFits]
    rfl

private theorem mapM_leaf_eq_ok : ∀ {blocks : List Bytes},
    (∀ block ∈ blocks, block.length ≤ 32) →
      ∃ leaves, blocks.mapM leaf = .ok leaves ∧
        leaves.map Word.bytes = blocks.map padded
  | [], _ => ⟨[], rfl, rfl⟩
  | block :: blocks, hFits => by
      obtain ⟨word, hLeaf, hBytes⟩ :=
        leaf_eq_ok (hFits block (List.mem_cons_self ..))
      obtain ⟨leaves, hLeaves, hRest⟩ :=
        mapM_leaf_eq_ok fun other h => hFits other (List.mem_cons_of_mem _ h)
      refine ⟨word :: leaves, ?_, ?_⟩
      · rw [List.mapM_cons, hLeaf, hLeaves]
        rfl
      · rw [List.map_cons, List.map_cons, hBytes, hRest]

theorem splitLeaves_eq_ok (payload : Bytes) {s : PrivacySettings}
    (hValid : s.Valid) :
    ∃ leaves, splitLeaves payload s = .ok leaves ∧
      leaves.map Word.bytes = (blocks payload s).map padded :=
  mapM_leaf_eq_ok fun _ h =>
    Nat.le_trans (length_le_of_mem_cut h) (size_le payload.length hValid)

section Split

variable {payload : Bytes} {s : PrivacySettings} {leaves : List Word}

theorem map_bytes_splitLeaves (hValid : s.Valid)
    (hSplit : splitLeaves payload s = .ok leaves) :
    leaves.map Word.bytes = (blocks payload s).map padded := by
  obtain ⟨found, hFound, hBytes⟩ := splitLeaves_eq_ok payload hValid
  have hSame : found = leaves := Except.ok.inj (hFound.symm.trans hSplit)
  rw [← hSame, hBytes]

theorem length_splitLeaves (hValid : s.Valid)
    (hSplit : splitLeaves payload s = .ok leaves) :
    leaves.length = count payload.length s := by
  rw [← List.length_map Word.bytes, map_bytes_splitLeaves hValid hSplit,
    List.length_map, blocks, length_cut]

theorem splitLeaves_pos (hValid : s.Valid)
    (hSplit : splitLeaves payload s = .ok leaves) :
    0 < leaves.length := by
  rw [length_splitLeaves hValid hSplit]
  exact count_pos _ hValid

/-! ## Joining -/

/-- Only zeros stand before the block in its leaf. -/
theorem any_take_padded (block : Bytes) :
    ((padded block).take (32 - block.length)).any (· ≠ 0) = false := by
  rw [padded, List.take_left' List.length_replicate]
  simp

theorem drop_padded (block : Bytes) :
    (padded block).drop (32 - block.length) = block := by
  rw [padded, List.drop_left' List.length_replicate]

/-- Block by block: what is left of the payload is what the remaining leaves
give back. -/
private theorem takeFrom_cut {size : Nat} (leaves : List Word) :
    ∀ (index : Nat) (rest : Bytes),
    rest.length ≤ leaves.length * size →
      leaves.map Word.bytes = (cut size leaves.length rest).map padded →
        takeFrom size index rest.length leaves = .ok rest := by
  induction leaves with
  | nil =>
      intro index rest hRoom _
      rw [List.length_nil, Nat.zero_mul] at hRoom
      rw [List.length_eq_zero_iff.mp (Nat.le_zero.mp hRoom)]
      rfl
  | cons leaf leaves ih =>
      intro index rest hRoom hLeaves
      rw [List.length_cons, cut, List.map_cons, List.map_cons, List.cons.injEq]
        at hLeaves
      rw [List.length_cons, Nat.add_mul, Nat.one_mul] at hRoom
      have hTaken : min rest.length size = (rest.take size).length := by
        rw [List.length_take, Nat.min_comm]
      have hLeft :
          rest.length - (rest.take size).length = (rest.drop size).length := by
        rw [List.length_take, List.length_drop]
        omega
      have hRest : takeFrom size (index + 1) (rest.drop size).length leaves =
          .ok (rest.drop size) :=
        ih (index + 1) _ (by rw [List.length_drop]; omega) hLeaves.2
      simp only [takeFrom, hTaken, hLeaves.1, any_take_padded, drop_padded,
        hLeft, hRest, Bool.false_eq_true, if_false]
      show Except.ok (rest.take size ++ rest.drop size) = _
      rw [List.take_append_drop]

theorem join_splitLeaves (hValid : s.Valid)
    (hSplit : splitLeaves payload s = .ok leaves) {length : UInt64}
    (hLength : length.toNat = payload.length) :
    join leaves length s = .ok payload := by
  have hCount := length_splitLeaves hValid hSplit
  have hRoom := le_count_mul_size payload.length s
  have hMax : size payload.length s ≤ min s.maxBlockBytes.toNat 32 :=
    Nat.le_min.mpr ⟨size_le_maxBlockBytes _ hValid, size_le _ hValid⟩
  have hFits :
      payload.length ≤ leaves.length * min s.maxBlockBytes.toNat 32 := by
    rw [hCount]
    exact Nat.le_trans hRoom (Nat.mul_le_mul_left _ hMax)
  have hBytes := map_bytes_splitLeaves hValid hSplit
  rw [join_eq_joinExact (size_le _ hValid), joinExact, hLength,
    if_neg (Nat.not_lt.mpr hFits), if_neg (not_not_intro hCount)]
  refine takeFrom_cut leaves 0 payload ?_ ?_
  · rw [hCount]
    exact hRoom
  · rw [hCount, hBytes]
    rfl

/-! ## What was joined was cut -/

/-- Zeros before the last bytes of a word make it the leaf of the block that
these bytes are. -/
theorem bytes_eq_padded {leaf : Word} {margin : Nat} (hMargin : margin ≤ 32)
    (hZeros : (leaf.bytes.take margin).any (· ≠ 0) = false) :
    leaf.bytes = padded (leaf.bytes.drop margin) := by
  have hLength : 32 - (leaf.bytes.drop margin).length = margin := by
    rw [List.length_drop, leaf.length_bytes]
    omega
  have hTake : leaf.bytes.take margin = List.replicate margin 0 := by
    refine List.eq_replicate_iff.mpr ⟨?_, fun byte hByte => ?_⟩
    · rw [List.length_take, leaf.length_bytes]
      exact Nat.min_eq_left hMargin
    · simpa using List.any_eq_false.mp hZeros byte hByte
  rw [padded, hLength, ← hTake, List.take_append_drop]

/-- One leaf was joined: it holds a block of the size that was due, and the rest
follows. -/
private theorem exists_of_takeFrom_cons {size index left : Nat} {leaf : Word}
    {leaves : List Word} {payload : Bytes} (hSize : size ≤ 32)
    (h : takeFrom size index left (leaf :: leaves) = .ok payload) :
    ∃ block rest, payload = block ++ rest ∧ leaf.bytes = padded block ∧
      block.length = min left size ∧
      takeFrom size (index + 1) (left - block.length) leaves = .ok rest := by
  simp only [takeFrom] at h
  have hBlock :
      (leaf.bytes.drop (32 - min left size)).length = min left size := by
    rw [List.length_drop, leaf.length_bytes]
    omega
  by_cases hDirty : (leaf.bytes.take (32 - min left size)).any (· ≠ 0) = true
  · rw [if_pos hDirty] at h
    cases h
  · rw [if_neg hDirty] at h
    cases hRest : takeFrom size (index + 1) (left - min left size) leaves with
    | error e =>
        rw [hRest] at h
        cases h
    | ok rest =>
        rw [hRest] at h
        cases h
        refine ⟨_, rest, rfl,
          bytes_eq_padded (Nat.sub_le _ _) (by simpa using hDirty), hBlock, ?_⟩
        rw [hBlock]
        exact hRest

/-- Leaf by leaf: what the remaining leaves give is as long as what is left of
the payload, and is cut into these leaves again. -/
private theorem cut_of_takeFrom {size : Nat} (hSize : size ≤ 32)
    (leaves : List Word) :
    ∀ (index left : Nat) (payload : Bytes), left ≤ leaves.length * size →
      takeFrom size index left leaves = .ok payload →
        payload.length = left ∧
          leaves.map Word.bytes =
            (cut size leaves.length payload).map padded := by
  induction leaves with
  | nil =>
      intro index left payload hRoom h
      rw [List.length_nil, Nat.zero_mul] at hRoom
      cases h
      exact ⟨(Nat.le_zero.mp hRoom).symm, rfl⟩
  | cons leaf leaves ih =>
      intro index left payload hRoom h
      obtain ⟨block, rest, rfl, hLeaf, hBlock, hRest⟩ :=
        exists_of_takeFrom_cons hSize h
      rw [List.length_cons, Nat.add_mul, Nat.one_mul] at hRoom
      obtain ⟨hLength, hLeaves⟩ :=
        ih (index + 1) (left - block.length) rest (by omega) hRest
      -- A block that is short is the last one with bytes in it.
      have hTake : (block ++ rest).take size = block ∧
          (block ++ rest).drop size = rest := by
        by_cases hFull : block.length = size
        · exact ⟨List.take_left' hFull, List.drop_left' hFull⟩
        · have hNil : rest = [] := List.length_eq_zero_iff.mp (by omega)
          subst hNil
          rw [List.append_nil]
          exact ⟨List.take_of_length_le (by omega),
            List.drop_of_length_le (by omega)⟩
      refine ⟨?_, ?_⟩
      · rw [List.length_append, hLength]
        omega
      · rw [List.map_cons, List.length_cons, cut, hTake.1, hTake.2,
          List.map_cons, hLeaf, hLeaves]

/-- Only the leaves of a payload are joined to it. -/
theorem splitLeaves_of_join (hValid : s.Valid) {length : UInt64}
    (h : join leaves length s = .ok payload) :
    payload.length = length.toNat ∧ splitLeaves payload s = .ok leaves := by
  have hFits := size_le length.toNat hValid
  have hRoom := le_count_mul_size length.toNat s
  rw [join_eq_joinExact hFits, joinExact] at h
  split at h
  · cases h
  · split at h
    · cases h
    · next hLeaves =>
      have hCount : leaves.length = count length.toNat s :=
        Decidable.not_not.mp hLeaves
      rw [← hCount] at hRoom
      obtain ⟨hLength, hCut⟩ :=
        cut_of_takeFrom hFits leaves 0 length.toNat payload hRoom h
      obtain ⟨found, hFound, hPadded⟩ := splitLeaves_eq_ok payload hValid
      rw [hCount, ← hLength] at hCut
      have hSame : found.map Word.bytes = leaves.map Word.bytes := by
        rw [hPadded, hCut]
        rfl
      have hWords : found = leaves :=
        (List.map_inj_right fun _ _ => Word.ext).mp hSame
      exact ⟨hLength, hFound.trans (congrArg Except.ok hWords)⟩

end Split

/-! ## Leaves without their length -/

/-- The bytes of a leaf after its leading zeros. -/
def unpadded (leaf : Word) : Bytes := leaf.bytes.dropWhile (· == 0)

private theorem dropWhile_padded {block : Bytes} (hNonzero : 0 ∉ block) :
    (padded block).dropWhile (· == 0) = block := by
  have hBlock : block.dropWhile (· == 0) = block := by
    cases block with
    | nil => rfl
    | cons byte rest =>
        have hNe : byte ≠ 0 := fun h => hNonzero (h ▸ List.mem_cons_self ..)
        rw [List.dropWhile_cons_of_neg (by simpa using hNe)]
  rw [padded, List.dropWhile_append_of_pos (by simp), hBlock]

/-- The number of blocks and their size are not needed: no block of such a
payload begins with the zeros that pad it. -/
theorem payload_of_leaves {payload : Bytes} {s : PrivacySettings}
    {leaves : List Word} (hValid : s.Valid) (hNonzero : 0 ∉ payload)
    (hSplit : splitLeaves payload s = .ok leaves) :
    leaves.flatMap unpadded = payload := by
  have hFlat : (blocks payload s).flatten = payload :=
    flatten_cut _ _ _ (le_count_mul_size payload.length s)
  have hBlocks : ∀ block ∈ blocks payload s,
      (padded block).dropWhile (· == 0) = block :=
    fun block hBlock => dropWhile_padded fun hZero =>
      hNonzero (hFlat ▸ List.mem_flatten.mpr ⟨block, hBlock, hZero⟩)
  calc leaves.flatMap unpadded
      = (leaves.map Word.bytes).flatMap (List.dropWhile (· == 0)) := by
        rw [List.flatMap_map]
        rfl
    _ = (blocks payload s).flatMap fun block =>
      (padded block).dropWhile (· == 0) := by
        rw [map_bytes_splitLeaves hValid hSplit, List.flatMap_map]
    _ = (blocks payload s).flatten := by
        rw [List.flatMap_def, List.map_congr_left hBlocks, List.map_id']
    _ = payload := hFlat

end SealedGraph.Blocks
