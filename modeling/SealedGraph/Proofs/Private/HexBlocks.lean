import SealedGraph.Proofs.Hash.HexSpellings
import SealedGraph.Proofs.Private.BlockLeaves

/-!
# Blocks as texts and as leaves

A block is shown as a text of 64 digits, or is hashed as a leaf of 32 bytes.
The text is padded with the digit zero and the leaf with the byte zero, each
from the same block, and the text is that of the leaf.

The blocks are the stretches of the payload between bounds that are computed
on words.  A product or sum beyond the greatest word stops there, and a bound
beyond the end of the payload stops at the end; neither changes a stretch.

## Main results

* `blocks_eq_stretches`: which bytes of the payload a block has.
* `padText_digits`: padding digits and padding bytes agree.
* `map_due_splitLeaves`: the last bytes of each leaf are its block.
* `split_eq_map_toHex`: both ways of splitting agree for every payload.
-/

namespace SealedGraph

/-! ## Products that stop at the greatest word -/

namespace Machine

/-- The product of two words, or the greatest word if the product is beyond
it. -/
def saturatingMul (a b : UInt64) : UInt64 :=
  if greatest.toNat < a.toNat * b.toNat then greatest else a * b

theorem toNat_saturatingMul (a b : UInt64) :
    (saturatingMul a b).toNat = min (a.toNat * b.toNat) greatest.toNat := by
  unfold saturatingMul
  by_cases hBeyond : greatest.toNat < a.toNat * b.toNat
  · rw [if_pos hBeyond, Nat.min_eq_right (Nat.le_of_lt hBeyond)]
  · have hFits := Nat.not_lt.mp hBeyond
    rw [if_neg hBeyond, UInt64.toNat_mul, Nat.min_eq_left hFits]
    rw [toNat_greatest] at hFits
    exact Nat.mod_eq_of_lt (Nat.lt_succ_of_le hFits)

end Machine

/-! ## Digits of padded bytes -/

namespace Hex

theorem digits_append (bytes rest : Bytes) :
    digits (bytes ++ rest) = digits bytes ++ digits rest := by
  induction bytes with
  | nil => rfl
  | cons byte bytes ih =>
      rw [List.cons_append, digits, digits, ih, List.cons_append,
        List.cons_append]

theorem digits_zeros (count : Nat) :
    digits (List.replicate count 0) = List.replicate (2 * count) '0' := by
  induction count with
  | zero => rfl
  | succ count ih =>
      rw [List.replicate_succ, digits, ih]
      rfl

end Hex

namespace Blocks

open Machine

theorem padText_digits {block : Bytes} (hFits : block.length ≤ 32) :
    padText (Hex.digits block) = Hex.digits (padded block) := by
  have hWidth : 64 - (Hex.digits block).length = 2 * (32 - block.length) := by
    rw [Hex.length_digits]
    omega
  rw [padText, hWidth, padded, Hex.digits_append, Hex.digits_zeros]

/-! ## Which bytes are in a block -/

theorem cut_eq_map (size : Nat) : ∀ (count : Nat) (bytes : Bytes),
    cut size count bytes =
      (List.range count).map fun index => (bytes.drop (index * size)).take size
  | 0, _ => rfl
  | count + 1, bytes => by
      rw [cut, cut_eq_map size count, List.range_succ_eq_map, List.map_cons,
        List.map_map, Nat.zero_mul, List.drop_zero]
      refine congrArg (bytes.take size :: ·)
        (List.map_congr_left fun index _ => ?_)
      rw [List.drop_drop, Function.comp_apply, Nat.succ_mul, Nat.add_comm]

/-- The bytes of a payload between the bounds of a block, which are computed on
words. -/
def stretch (payload : Bytes) (s : PrivacySettings) (index : UInt64) : Bytes :=
  let length := UInt64.ofNat payload.length
  let size := announcedSize length s
  let start := min (saturatingMul index size) length
  let stop := min (saturatingAdd start size) length
  payload.extract start.toNat stop.toNat

/-- How many bytes of a payload are in a block: as many as a block has, fewer in
the last one, and none in those after it. -/
def due (length : Nat) (s : PrivacySettings) (index : Nat) : Nat :=
  min (size length s) (length - index * size length s)

section Payload

variable {payload : Bytes} {s : PrivacySettings}

theorem blocks_eq_map (payload : Bytes) (s : PrivacySettings) :
    blocks payload s = (List.range (count payload.length s)).map fun index =>
      (payload.drop (index * size payload.length s)).take
        (size payload.length s) :=
  cut_eq_map _ _ payload

section Words

variable (hWord : payload.length < 18446744073709551616)

include hWord

theorem toNat_length : (UInt64.ofNat payload.length).toNat = payload.length :=
  UInt64.toNat_ofNat_of_lt' hWord

/-- The number of blocks of a payload in memory is a word. -/
theorem toNat_announcedCount_length (s : PrivacySettings) :
    (announcedCount (UInt64.ofNat payload.length) s).toNat =
      count payload.length s := by
  rw [toNat_announcedCount, toNat_length hWord]

theorem stretch_eq {index : Nat} (hIndex : index < count payload.length s) :
    stretch payload s (UInt64.ofNat index) =
      (payload.drop (index * size payload.length s)).take
        (size payload.length s) := by
  have hLength := toNat_length hWord
  have hCount := (announcedCount (UInt64.ofNat payload.length) s).toNat_lt
  rw [toNat_announcedCount_length hWord] at hCount
  have hPlace : (UInt64.ofNat index).toNat = index :=
    UInt64.toNat_ofNat_of_lt' (Nat.lt_trans hIndex hCount)
  simp only [stretch, List.extract_eq_take_drop, toNat_min, toNat_saturatingAdd,
    toNat_saturatingMul, toNat_announcedSize, toNat_greatest, hLength, hPlace]
  generalize index * size payload.length s = start
  generalize size payload.length s = size
  by_cases hInside : start ≤ payload.length
  · have hStart :
        min (min start 18446744073709551615) payload.length = start := by omega
    have hStop :
        min (min (start + size) 18446744073709551615) payload.length - start =
          min size (payload.drop start).length := by
      rw [List.length_drop]
      omega
    rw [hStart, hStop, ← List.take_eq_take_min]
  · -- Both bounds stop at the end of the payload.
    have hStart :
        min (min start 18446744073709551615) payload.length =
          payload.length := by omega
    rw [hStart, List.drop_of_length_le (Nat.le_refl _),
      List.drop_of_length_le (by omega), List.take_nil, List.take_nil]

theorem blocks_eq_stretches :
    blocks payload s = (List.range (count payload.length s)).map fun index =>
      stretch payload s (UInt64.ofNat index) := by
  rw [blocks_eq_map]
  exact List.map_congr_left fun index hIndex =>
    (stretch_eq hWord (List.mem_range.mp hIndex)).symm

end Words

/-! ## Texts and leaves -/

theorem length_of_mem_split (hValid : s.Valid) {text : String}
    (h : text ∈ split payload s) :
    text.length = 64 := by
  obtain ⟨block, hBlock, rfl⟩ := List.mem_map.mp h
  have hFits : block.length ≤ 32 :=
    Nat.le_trans (length_le_of_mem_cut hBlock) (size_le payload.length hValid)
  rw [String.length_ofList, padText_digits hFits, Hex.length_digits, padded,
    List.length_append, List.length_replicate]
  omega

variable {leaves : List Word}

theorem split_eq_of_splitLeaves (hValid : s.Valid)
    (hSplit : splitLeaves payload s = .ok leaves) :
    split payload s = leaves.map Word.toHex := by
  have hBlocks : ∀ block ∈ blocks payload s,
      String.ofList (padText (Hex.digits block)) =
        Hex.encode (padded block) := by
    intro block hBlock
    rw [padText_digits
      (Nat.le_trans (length_le_of_mem_cut hBlock) (size_le _ hValid)),
      Hex.encode]
  calc split payload s
      = (blocks payload s).map fun block => Hex.encode (padded block) :=
        List.map_congr_left hBlocks
    _ = (leaves.map Word.bytes).map Hex.encode := by
        rw [map_bytes_splitLeaves hValid hSplit, List.map_map]
        rfl
    _ = leaves.map Word.toHex := by
        rw [List.map_map]
        rfl

/-- The last bytes of each leaf, as many as are due, are its block. -/
theorem map_due_splitLeaves (hValid : s.Valid)
    (hSplit : splitLeaves payload s = .ok leaves) :
    leaves.zipIdx.map
      (fun leaf => leaf.1.bytes.drop (32 - due payload.length s leaf.2)) =
        blocks payload s := by
  have hBytes := map_bytes_splitLeaves hValid hSplit
  have hCount := length_splitLeaves hValid hSplit
  refine List.ext_getElem (by simp [blocks, hCount]) fun index hLeaf hBlock =>
    ?_
  have hIndex : index < leaves.length := by simpa using hLeaf
  have hPadded : leaves[index].bytes = padded (blocks payload s)[index] := by
    have hSame := congrArg (·[index]?) hBytes
    simpa [hIndex, hBlock] using hSame
  have hDue :
      (blocks payload s)[index].length = due payload.length s index := by
    simp [blocks_eq_map, due]
  simp only [List.getElem_map, List.getElem_zipIdx, Nat.zero_add, hPadded,
    ← hDue, drop_padded]

end Payload

/-- Under valid settings every payload is split into texts and into leaves,
equally many and as many as there are blocks; each text has 64 digits and is
that of the leaf in its place.  What is due of each leaf, one after another, is
the payload.  On a machine whose words are long enough for the payload, the
blocks are the stretches between the bounds that are computed on words. -/
theorem split_eq_map_toHex {s : PrivacySettings} (hValid : s.Valid)
    (payload : Bytes) :
    ∃ leaves, splitLeaves payload s = .ok leaves ∧
      leaves.length = count payload.length s ∧
      (split payload s).length = count payload.length s ∧
      s.firstLevelBlocks.toNat ≤ count payload.length s ∧
      (∀ text ∈ split payload s, text.length = 64) ∧
      split payload s = leaves.map Word.toHex ∧
      leaves.zipIdx.flatMap
        (fun leaf => leaf.1.bytes.drop (32 - due payload.length s leaf.2)) =
          payload ∧
      (payload.length < 18446744073709551616 →
        (announcedCount (UInt64.ofNat payload.length) s).toNat =
          count payload.length s ∧
        blocks payload s = (List.range (count payload.length s)).map
          fun index =>
          stretch payload s (UInt64.ofNat index)) := by
  obtain ⟨leaves, hSplit, _⟩ := splitLeaves_eq_ok payload hValid
  refine ⟨leaves, hSplit, length_splitLeaves hValid hSplit, ?_,
    firstLevelBlocks_le_count _ s, fun _ => length_of_mem_split hValid,
    split_eq_of_splitLeaves hValid hSplit, ?_, fun hWord =>
      ⟨toNat_announcedCount_length hWord s, blocks_eq_stretches hWord⟩⟩
  · rw [split, List.length_map, blocks, length_cut]
  · rw [List.flatMap_def, map_due_splitLeaves hValid hSplit]
    exact flatten_cut _ _ _ (le_count_mul_size payload.length s)

/-- Nine bytes for six leaves: four blocks of two bytes, one of a single byte,
and an empty one. -/
theorem split_eq_map_toHex_six :
    ∃ leaves, splitLeaves [1, 2, 3, 4, 5, 6, 7, 8, 9] ⟨6, 32, ["private"]⟩ =
      .ok leaves ∧
      split [1, 2, 3, 4, 5, 6, 7, 8, 9] ⟨6, 32, ["private"]⟩ =
        leaves.map Word.toHex ∧
      leaves.zipIdx.flatMap
        (fun leaf =>
          leaf.1.bytes.drop (32 - due 9 ⟨6, 32, ["private"]⟩ leaf.2)) =
            [1, 2, 3, 4, 5, 6, 7, 8, 9] ∧
      (List.range 6).map (fun index =>
        stretch [1, 2, 3, 4, 5, 6, 7, 8, 9] ⟨6, 32, ["private"]⟩
          (UInt64.ofNat index)) =
            [[1, 2], [3, 4], [5, 6], [7, 8], [9], []] := by
  obtain ⟨leaves, hSplit, _, _, _, _, hTexts, hBytes, hWords⟩ :=
    split_eq_map_toHex (s := ⟨6, 32, ["private"]⟩) (by decide) [1, 2, 3, 4, 5,
      6, 7, 8, 9]
  exact ⟨leaves, hSplit, hTexts, hBytes, (hWords (by decide)).2.symm⟩

end Blocks
end SealedGraph
