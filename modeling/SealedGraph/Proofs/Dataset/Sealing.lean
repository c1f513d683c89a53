import Mathlib
import SealedGraph.Proofs.Dataset.HandledDatasets

/-!
# Sealed datasets

A root hash is written into the dataset whose root it is.  This does not move
the root: of the header, only the creator is part of the summary.  So a sealed
dataset has the root that it claims, and sealing it again changes nothing.  A
header may claim a hash in any spelling; it is compared as a word.

## Main results

* `rootHash_withRootText`: a root does not depend on what a header claims.
* `verifyRootHash_of_sealed`: what sealing writes, and that it is confirmed.
-/

namespace SealedGraph

/-! ## Headers with a root hash -/

namespace Header

/-- The proofs of a header are those of another one, but for the value of the
first; if there were none, there is one proof of the root. -/
inductive ProofsSealed (value : String) :
    List IntegrityProof → List IntegrityProof → Prop where
  | made : ProofsSealed value [] [IntegrityProof.merkleRoot value]
  | set (first : IntegrityProof) (others : List IntegrityProof) :
      ProofsSealed value (first :: others)
        ({ first with value := value } :: others)

theorem exists_withRootText (h : Header) (value : String) :
    ∃ proofs, ProofsSealed value h.integrity.proofs proofs ∧
      h.withRootText value =
        { h with integrity := { h.integrity with proofs := proofs } } := by
  unfold withRootText
  cases h.integrity.proofs with
  | nil => exact ⟨_, .made, rfl⟩
  | cons first others => exact ⟨_, .set first others, rfl⟩

theorem withRootText_withRootText (h : Header) (value : String) :
    (h.withRootText value).withRootText value = h.withRootText value := by
  unfold withRootText
  cases h.integrity.proofs <;> rfl

/-- A header claims what is the value of its first proof, if this is not
empty. -/
theorem rootText?_eq_some {h : Header} {text : String} :
    h.rootText? = some text ↔
      ∃ first others, h.integrity.proofs = first :: others ∧
        first.value = text ∧ text ≠ "" := by
  unfold rootText?
  cases h.integrity.proofs with
  | nil => simp
  | cons first others =>
      by_cases hEmpty : first.value = ""
      · simp [hEmpty]
      · simp only [List.head?_cons, Option.bind_eq_bind, Option.bind_some,
          if_neg hEmpty, Option.some.injEq]
        constructor
        · rintro rfl
          exact ⟨first, others, rfl, rfl, hEmpty⟩
        · rintro ⟨_, _, hSame, hText, _⟩
          cases hSame
          exact hText

end Header

namespace Publisher

variable {p : Publisher} {d : Document}

/-- A root does not depend on what a header claims. -/
theorem rootHash_withRootText (d : Document) (text : String) :
    p.rootHash (d.withRootText text) = p.rootHash d := by
  have hCreator :
      (d.withRootText text).header.map (·.creator) =
        d.header.map (·.creator) := by
    show (d.header.map (·.withRootText text)).map (·.creator) = _
    rw [Option.map_map]
    rfl
  exact rootHash_congr rfl hCreator rfl

/-- A document has a header if it has a root. -/
theorem exists_header_of_rootHash {root : Word}
    (hRoot : p.rootHash d = .ok root) :
    ∃ header, d.header = some header := by
  obtain ⟨_, hFound, _⟩ := bind_eq_ok.mp hRoot
  obtain ⟨_, header, _, _, hHeader, _⟩ := distribution_eq_ok.mp hFound
  exact ⟨header, hHeader⟩

/-- A document with a root can be sealed.  Of the header, nothing changes but
the value of the first proof, which is made if there is none; the root is
confirmed by the sealed document, and sealing it again changes nothing.  A
header that claims a hash, in whatever spelling, has it confirmed exactly if it
is the root. -/
theorem verifyRootHash_of_sealed (p : Publisher) (d : Document) :
    (∀ root, p.rootHash d = .ok root →
      ∃ header proofs sealed, d.header = some header ∧
      Header.ProofsSealed root.text header.integrity.proofs proofs ∧
      sealed = { d with
        header := some { header with
          integrity := { header.integrity with proofs := proofs } } } ∧
      p.withRootHash d = .ok sealed ∧ p.verifyRootHash sealed = .ok root ∧
      p.withRootHash sealed = .ok sealed) ∧
    ∀ header first others claimed, d.header = some header →
      header.integrity.proofs = first :: others → first.value ≠ "" →
      Word.ofText first.value = .ok claimed →
      (p.verifyRootHash d = .ok claimed ↔ p.rootHash d = .ok claimed) := by
  constructor
  · intro root hRoot
    obtain ⟨header, hHeader⟩ := exists_header_of_rootHash hRoot
    obtain ⟨proofs, hProofs, hSealed⟩ := header.exists_withRootText root.text
    have hSealedRoot : p.rootHash (d.withRootText root.text) = .ok root :=
      (rootHash_withRootText d root.text).trans hRoot
    have hSealedHeader :
        (d.withRootText root.text).header =
          some (header.withRootText root.text) := by
      rw [Document.withRootText, hHeader]
      rfl
    have hClaim := header.rootText?_withRootText root.text_ne_empty
    refine ⟨header, proofs, d.withRootText root.text, hHeader, hProofs, ?_,
      withRootHash_eq_ok.mpr ⟨root, hRoot, rfl⟩,
      (verifyRootHash_iff hSealedHeader hClaim root.ofText_text).mpr
        ⟨hSealedRoot, rfl⟩,
      withRootHash_eq_ok.mpr ⟨root, hSealedRoot, ?_⟩⟩
    · rw [Document.withRootText, hHeader, Option.map_some, hSealed]
    · show { d with header := (d.header.map _).map _ } =
        { d with header := d.header.map _ }
      rw [hHeader]
      simp only [Option.map_some, Header.withRootText_withRootText]
  · intro header first others claimed hHeader hProofs hText hClaimed
    have hClaim : header.rootText? = some first.value :=
      Header.rootText?_eq_some.mpr ⟨first, others, hProofs, rfl, hText⟩
    rw [verifyRootHash_iff hHeader hClaim hClaimed]
    exact and_iff_left rfl

/-- A dataset of one object whose header has two proofs. -/
def claimingDocument (claim : String) : Document :=
  { id := some "d"
    header :=
      some { integrity :=
        { proofs := [.merkleRoot claim, { type := "signed", schema := "" }] } }
    graph := [{ id := "a" }] }

/-- Its root, in capitals and without `0x`. -/
def capitalClaim : String :=
  "F20F5B76F77D5F5386490EB2FD3DC9D4366C952066FC13882D5435530ACDD67D"

set_option maxRecDepth 100000 in
/-- The claim in capitals is confirmed, and replaced when the dataset is
sealed. -/
theorem verifyRootHash_of_sealed_capital : ∃ root sealed,
    Word.ofText capitalClaim = .ok root ∧ capitalClaim ≠ root.text ∧
    defaultPublisher.verifyRootHash (claimingDocument capitalClaim) = .ok root ∧
    sealed = claimingDocument root.text ∧
    defaultPublisher.withRootHash (claimingDocument capitalClaim) = .ok sealed ∧
    defaultPublisher.verifyRootHash sealed = .ok root ∧
    defaultPublisher.withRootHash sealed = .ok sealed := by
  have hClaimed : (Word.ofText capitalClaim).toOption.isSome := by
    decide +kernel
  have hComputed :
      (defaultPublisher.rootHash (claimingDocument capitalClaim)).toOption =
        (Word.ofText capitalClaim).toOption := by
    decide +kernel
  have hSpelling : ∀ root ∈ (Word.ofText capitalClaim).toOption,
      capitalClaim ≠ root.text := by
    decide +kernel
  obtain ⟨root, hOption⟩ := Option.isSome_iff_exists.mp hClaimed
  have hWord := toOption_eq_some.mp hOption
  have hRoot := toOption_eq_some.mp (hComputed.trans hOption)
  obtain ⟨hSealing, hClaims⟩ :=
    verifyRootHash_of_sealed defaultPublisher (claimingDocument capitalClaim)
  obtain ⟨header, proofs, sealed, hHeader, hProofs, hSealed, hWritten,
    hVerified, hAgain⟩ :=
    hSealing root hRoot
  have hConfirmed := (hClaims _ _ _ root rfl rfl (by decide) hWord).mpr hRoot
  cases hHeader
  cases hProofs
  exact ⟨root, sealed, hWord, hSpelling root hOption, hConfirmed, hSealed,
    hWritten, hVerified, hAgain⟩

end Publisher
end SealedGraph
