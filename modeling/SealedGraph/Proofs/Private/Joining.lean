import SealedGraph.Proofs.Private.BlockLeaves

/-!
# Which leaves are joined

Under valid settings, joining undoes splitting and nothing else: leaves are
joined to a payload exactly when they are what the payload is split into.

Joining is also open to settings that nobody has checked and to lengths that
somebody else announces.  Whatever they are, it ends with a payload or with a
mismatch, but for one case.  The tests before joining bound a block by the
width of a leaf, while its size is not bounded so: settings that allow longer
blocks may ask the first leaf for more bytes than it has.

## Main results

* `join_eq_ok`: joining and splitting are inverse to each other.
* `join_answered_iff`: when joining ends with a payload or a mismatch.
* `join_not_answered`: it does not always.
-/

namespace SealedGraph.Blocks

/-! ## Splitting and joining -/

/-- Leaves are joined to a payload exactly when the payload has the announced
length and is split into them. -/
theorem join_eq_ok {s : PrivacySettings} (hValid : s.Valid) (leaves : List Word)
    (length : UInt64) (payload : Bytes) :
    join leaves length s = .ok payload ↔
      payload.length = length.toNat ∧ splitLeaves payload s = .ok leaves := by
  constructor
  · intro hJoin
    exact splitLeaves_of_join hValid hJoin
  · rintro ⟨hLength, hSplit⟩
    exact join_splitLeaves hValid hSplit hLength.symm

/-- At least four leaves, of at most 32 bytes. -/
def fourLeaves : PrivacySettings := ⟨4, 32, ["private"]⟩

/-- Three blocks of three bytes, and a last one with a single byte. -/
theorem join_eq_ok_digits :
    ∃ leaves, splitLeaves [48, 49, 50, 51, 52, 53, 54, 55, 56, 57] fourLeaves =
      .ok leaves ∧
      join leaves 10 fourLeaves =
        .ok [48, 49, 50, 51, 52, 53, 54, 55, 56, 57] := by
  have hValid : fourLeaves.Valid := by decide
  obtain ⟨leaves, hSplit, _⟩ :=
    splitLeaves_eq_ok [48, 49, 50, 51, 52, 53, 54, 55, 56, 57] hValid
  exact ⟨leaves, hSplit, (join_eq_ok hValid leaves 10 _).mpr ⟨rfl, hSplit⟩⟩

/-! ## Settings that were not checked -/

theorem answered_takeFrom (size : Nat) (leaves : List Word) :
    ∀ index left : Nat, Answered (takeFrom size index left leaves) := by
  induction leaves with
  | nil =>
      intro index left
      exact answered_ok []
  | cons leaf rest ih =>
      intro index left
      exact answered_unless fun _ => (ih _ _).map _

theorem answered_joinExact (leaves : List Word) (length : UInt64)
    (s : PrivacySettings) :
    Answered (joinExact leaves length s) :=
  answered_unless fun _ => answered_unless fun _ =>
    answered_takeFrom _ leaves 0 _

/-- Whatever the settings, joining ends with a payload or a mismatch, unless the
leaves pass both tests and a block is longer than a leaf.  Then the difference
of what a leaf has and what the first one is asked for is negative, which is the
only one that ever is; and the settings allow blocks of more than 32 bytes. -/
theorem join_answered_iff (leaves : List Word) (length : UInt64)
    (s : PrivacySettings) :
    (Answered (join leaves length s) ↔ ¬ Overlong leaves length s) ∧
    (Overlong leaves length s → join leaves length s = .error .outOfRange ∧
      Machine.minus? 32 (min length (announcedSize length s)) = none ∧
        32 < s.maxBlockBytes) := by
  refine ⟨⟨fun hAnswered hOverlong => ?_, fun hRegular => ?_⟩,
    fun hOverlong => ⟨?_, ?_, ?_⟩⟩
  · rw [join_of_overlong hOverlong] at hAnswered
    exact not_answered_outOfRange hAnswered
  · rw [join_of_not_overlong hRegular]
    exact answered_joinExact leaves length s
  · exact join_of_overlong hOverlong
  · exact minus?_of_overlong hOverlong
  · exact UInt64.lt_iff_toNat_lt.mpr (lt_maxBlockBytes_of_lt_size hOverlong.2.2)

/-- One leaf is enough, and blocks may be a byte longer than it. -/
def wideBlocks : PrivacySettings := ⟨1, 33, ["private"]⟩

/-- No leaf is needed, and no byte is allowed in a block. -/
def noBlocks : PrivacySettings := ⟨0, 0, []⟩

theorem join_answered_iff_unchecked :
    join [Word.zero, Word.zero] 34 wideBlocks = .error .outOfRange ∧
      ¬ noBlocks.Valid ∧ Answered (join [] 0 noBlocks) := by
  have hOverlong : Overlong [Word.zero, Word.zero] 34 wideBlocks := by decide
  have hRegular : ¬ Overlong [] 0 noBlocks := by decide
  exact ⟨((join_answered_iff _ _ _).2 hOverlong).1, by decide,
    (join_answered_iff [] 0 noBlocks).1.mpr hRegular⟩

/-- Two leaves have room for 34 bytes, but not for a block of 33. -/
theorem join_not_answered :
    ¬ ∀ (leaves : List Word) (length : UInt64) (s : PrivacySettings),
      Answered (join leaves length s) := by
  intro h
  have hOverlong : Overlong [Word.zero, Word.zero] 34 wideBlocks := by decide
  have hAnswered := h [Word.zero, Word.zero] 34 wideBlocks
  rw [join_of_overlong hOverlong] at hAnswered
  exact not_answered_outOfRange hAnswered

end SealedGraph.Blocks
