import SealedGraph.Dataset.Preparation
import SealedGraph.Proofs.Dataset.ReceivedSignature
import SealedGraph.Proofs.Dataset.RootBinding
import SealedGraph.Proofs.Dataset.Secrecy
import SealedGraph.Proofs.Graph.BuiltHeaders
import SealedGraph.Proofs.Graph.SurvivingViews
import SealedGraph.Proofs.Private.Restoring

/-!
# A prepared dataset verifies wherever it goes

A prepared dataset is handed out as it is, in its public view, and in the view
of a holder, and each of these is sent as a text.  Whoever receives one of them
finds the root hash in its header to be that of its graph, its id to be the
digest of its public graph, and its signer over the bytes that were signed.

Root hash, id and signature all depend on the public view of the graph, which
is the same for the three forms; and nothing of a form is lost on the way but
what its numbers lose when they are read again.

## Main results

* `Verifies.withGraph`: what verifies depends on the public view of the graph
  only.
* `verifies_of_prepare`: a prepared dataset verifies.
* `survives_of_prepare`: a prepared dataset survives writing and reading.
* `verifies_everywhere`: so it verifies in all of its forms, and these arrive as
  they were if their numbers are read back.
-/

namespace SealedGraph

open Json

/-- A document that survives arrives as it was sent if, and only if, its numbers
are read back. -/
theorem Document.arrives_iff_of_survives {d : Document}
    (h : Survives ofNormal? json maxDepth d) :
    d.Arrives d ↔ d.json.ReadsBack := by
  rw [← reread?_eq_self_iff]
  constructor
  · intro hArrives
    rw [← parse?_canonicalText_of_tidy h.tidy]
    exact hArrives.canonicalText
  · intro hAgain
    constructor
    · exact (parse?_canonicalText_of_tidy h.tidy).trans hAgain
    · exact (parse?_indentedText_of_tidy h.tidy).trans hAgain
    · exact fun _ hWire => parse_of_survives h hWire

theorem Word.ofText_text (word : Word) : Word.ofText word.text = .ok word := by
  rw [Word.ofText, Word.ofHex_text]
  rfl

theorem Word.text_ne_empty (word : Word) : word.text ≠ "" := by simp [text]

/-- The root hash that a header was given is the one that it claims. -/
theorem Header.rootText?_withRootText (h : Header) {text : String}
    (hText : text ≠ "") :
    (h.withRootText text).rootText? = some text := by
  unfold withRootText rootText?
  cases h.integrity.proofs <;> simp [hText, IntegrityProof.merkleRoot]

namespace Publisher

variable {p : Publisher}

/-! ## What is verified -/

/-- A dataset has a root hash that it claims to have, the digest of its public
graph as its id, and a signer who is recovered over a message. -/
structure Verifies (p : Publisher) (d : Document) (root : Word)
    (message : Bytes) (value : String) : Prop where
  rootHash : p.verifyRootHash d = .ok root
  id : ∃ hash, p.publicHash d.graph = .ok hash ∧ d.id = some hash.text
  signer : p.RecoversOver d message value

/-- Of the graph, only the public view is verified. -/
theorem Verifies.withGraph {d : Document} {root : Word} {message : Bytes}
    {value : String} (h : p.Verifies d root message value)
    {graph : List GraphObject}
    (hSame : p.committer.stripGraph graph = p.committer.stripGraph d.graph) :
    p.Verifies { d with graph := graph } root message value := by
  have hRoot :
      p.verifyRootHash { d with graph := graph } = p.verifyRootHash d := by
    unfold verifyRootHash
    rw [rootHash_withGraph hSame]
    rfl
  have hPublic : p.publicHash graph = p.publicHash d.graph := by
    rw [publicHash, publicHash, hSame]
  have hSigned := signedBytes_withGraph hSame
  have hSigner : p.signer { d with graph := graph } = p.signer d := by
    unfold Publisher.signer
    rw [hSigned]
  constructor
  · exact hRoot.trans h.rootHash
  · obtain ⟨hash, hHash, hId⟩ := h.id
    exact ⟨hash, hPublic.trans hHash, hId⟩
  · refine ⟨hSigned.trans h.signer.signedBytes, hSigner.trans h.signer.signer,
      fun address ha => ?_⟩
    have hVerify := h.signer.verifySigner address ha
    unfold verifySigner at hVerify ⊢
    rw [hSigner]
    exact hVerify

/-! ## Preparation -/

theorem draft_eq_ok {d draft : Document} {created : Instant} :
    p.draft d created = .ok draft ↔ ∃ graph hash,
      p.committer.commitGraph d.graph = .ok graph ∧
      p.publicHash graph = .ok hash ∧
      { id := some hash.text, type := some datasetType,
        header := some (p.header (descriptionOf d) created),
        graph := graph } = draft := by
  unfold Publisher.draft
  simp only [bind_eq_ok]
  constructor
  · intro h
    obtain ⟨graph, hGraph, hash, hHash, hDraft⟩ := h
    exact ⟨graph, hash, hGraph, hHash, Except.ok.inj hDraft⟩
  · rintro ⟨graph, hash, hGraph, hHash, rfl⟩
    exact ⟨graph, hGraph, hash, hHash, rfl⟩

theorem withRootHash_eq_ok {d sealed : Document} :
    p.withRootHash d = .ok sealed ↔
      ∃ root, p.rootHash d = .ok root ∧ d.withRootText root.text = sealed := by
  unfold withRootHash
  rw [bind_eq_ok]
  refine exists_congr fun root => and_congr_right fun _ => ?_
  exact ⟨Except.ok.inj, congrArg Except.ok⟩

theorem prepare_eq_ok {d prepared : Document} {key : Ecdsa.PrivateKey}
    {created : Instant} :
    p.prepare d key created = .ok prepared ↔ ∃ draft sealed,
      p.draft d created = .ok draft ∧
      p.withRootHash draft = .ok sealed ∧ p.sign sealed key = .ok prepared := by
  unfold prepare
  simp only [bind_eq_ok]
  constructor
  · intro h
    obtain ⟨draft, hDraft, sealed, hSealed, hSign⟩ := h
    exact ⟨draft, sealed, hDraft, hSealed, hSign⟩
  · rintro ⟨draft, sealed, hDraft, hSealed, hSign⟩
    exact ⟨draft, hDraft, sealed, hSealed, hSign⟩

/-- A claim is confirmed if it is the root, in whatever spelling. -/
theorem verifyRootHash_iff {d : Document} {header : Header} {text : String}
    {claimed root : Word} (hHeader : d.header = some header)
    (hText : header.rootText? = some text)
    (hClaimed : Word.ofText text = .ok claimed) :
    p.verifyRootHash d = .ok root ↔ p.rootHash d = .ok root ∧
      root = claimed := by
  have hSteps : p.verifyRootHash d = (do
      let actual ← p.rootHash d
      if actual = claimed then return actual
      else .error (.hash (.rootMismatch claimed actual))) := by
    unfold verifyRootHash Document.requireHeader
    simp only [hHeader, bind, Except.bind, hText, hClaimed]
  rw [hSteps, bind_eq_ok]
  constructor
  · rintro ⟨actual, hActual, hCompared⟩
    split at hCompared
    · next hSame =>
      cases hCompared
      exact ⟨hActual, hSame⟩
    · cases hCompared
  · rintro ⟨hRoot, hSame⟩
    exact ⟨root, hRoot, by rw [if_pos hSame]; rfl⟩

/-- A signature is no part of what is signed. -/
theorem signedBytes_withSignature (d : Document)
    (signature : Option Signature) :
    p.signedBytes { d with signature := signature } = p.signedBytes d := by
  unfold signedBytes strip
  cases p.committer.stripGraph d.graph <;> rfl

/-- A prepared dataset verifies, with the root hash in its header, over the
message that was signed. -/
theorem verifies_of_prepare {d draft sealed prepared : Document}
    {key : Ecdsa.PrivateKey} {created : Instant}
    (hDraft : p.draft d created = .ok draft)
    (hSealed : p.withRootHash draft = .ok sealed)
    (hSign : p.sign sealed key = .ok prepared) :
    ∃ root message value, p.rootHash draft = .ok root ∧
      p.signedBytes sealed = .ok message ∧
      Message.sign message key = .ok value ∧
      prepared.header.bind Header.rootText? = some root.text ∧
      p.Verifies prepared root message value := by
  obtain ⟨graph, hash, _, hHash, rfl⟩ := draft_eq_ok.mp hDraft
  obtain ⟨root, hRoot, rfl⟩ := withRootHash_eq_ok.mp hSealed
  obtain ⟨message, value, hMessage, hValue, rfl⟩ := sign_eq_ok.mp hSign
  have hText :=
    Header.rootText?_withRootText (p.header (descriptionOf d) created)
      root.text_ne_empty
  refine ⟨root, message, value, hRoot, hMessage, hValue, hText, ?_,
    ⟨hash, hHash, rfl⟩, ?_⟩
  · exact (verifyRootHash_iff rfl hText root.ofText_text).mpr ⟨hRoot, rfl⟩
  · exact recoversOver rfl ((signedBytes_withSignature _ _).trans hMessage)

/-! ## Handing out -/

/-- A dataset that was prepared from a document that was read survives. -/
theorem survives_of_prepare {text : String} {d prepared : Document}
    {key : Ecdsa.PrivateKey} {created : Instant}
    (hRead : Document.parse text = .ok d)
    (hPrepare : p.prepare d key created = .ok prepared) :
    Survives Document.ofNormal? Document.json maxDepth prepared := by
  have hGiven : Survives Document.ofNormal? Document.json (125 + 2) d :=
    Document.survives_of_parse hRead
  obtain ⟨draft, sealed, hDraft, hSealed, hSign⟩ := prepare_eq_ok.mp hPrepare
  obtain ⟨graph, hash, hGraph, _, rfl⟩ := draft_eq_ok.mp hDraft
  obtain ⟨root, _, rfl⟩ := withRootHash_eq_ok.mp hSealed
  obtain ⟨message, value, _, _, rfl⟩ := sign_eq_ok.mp hSign
  have hTranspilation : ∀ v, (descriptionOf d).transpilation = some v →
      Tidy (122 + 3) v ∧ v ≠ .null := by
    unfold descriptionOf
    cases hHeader : d.header with
    | none => exact nofun
    | some header =>
        exact Header.tidy_transpilation
          (Document.survives_header (by decide) hGiven hHeader)
  refine Document.survives_of_parts (by decide : 2 ≤ 125) rfl ?_ ?_
  · intro header hHeader
    cases hHeader
    exact survives_header p (descriptionOf d) created hTranspilation root.text
  · exact Committer.survives_mapGraph (Committer.keeps_commitAt _) (by decide)
      (Document.survives_object (by decide) hGiven) hGraph

/-- A view that shows the same to the public survives and verifies as the
dataset does. -/
theorem verifies_of_view {d : Document} {root : Word} {message : Bytes}
    {value : String}
    (hSurvives : Survives Document.ofNormal? Document.json maxDepth d)
    (hVerifies : p.Verifies d root message value)
    {change : Slot → PrivateEntry → Except Error PrivateEntry}
    {graph : List GraphObject} (hKeeps : Committer.Keeps change)
    (hSame : ∀ slot e e', change slot e = .ok e' → e'.stripped = e.stripped)
    (hGraph : d.graph.mapM (p.committer.mapObject change) = .ok graph) :
    Survives Document.ofNormal? Document.json maxDepth
      { d with graph := graph } ∧
      p.Verifies { d with graph := graph } root message value := by
  have hRoom : maxDepth = 125 + 2 := rfl
  rw [hRoom] at hSurvives
  constructor
  · exact Committer.survives_withView hKeeps (by decide) hSurvives hGraph
  · exact hVerifies.withGraph
      (Committer.stripGraph_of_view hKeeps.keepsSound hSame hGraph)

/-- A prepared dataset, its public view and the view of a holder verify: all of
them have the root hash that stands in the header, the digest of the public
graph as their id, and a signature over the message that was signed.  Each of
them arrives as it was sent, and verifies there, if, and only if, its numbers
are read back. -/
theorem verifies_everywhere {text : String} {d prepared : Document}
    {key : Ecdsa.PrivateKey} {created : Instant}
    (hRead : Document.parse text = .ok d)
    (hPrepare : p.prepare d key created = .ok prepared) :
    ∃ draft sealed root message value shown held,
      p.draft d created = .ok draft ∧ p.withRootHash draft = .ok sealed ∧
      p.signedBytes sealed = .ok message ∧
      Message.sign message key = .ok value ∧
      prepared.header.bind Header.rootText? = some root.text ∧
      p.strip prepared = .ok shown ∧ p.hide prepared = .ok held ∧
      ∀ x ∈ [prepared, shown, held],
        (x.Arrives x ↔ x.json.ReadsBack) ∧ p.Verifies x root message value := by
  obtain ⟨draft, sealed, hDraft, hSealed, hSign⟩ := prepare_eq_ok.mp hPrepare
  obtain ⟨root, message, value, _, hMessage, hValue, hText, hVerifies⟩ :=
    verifies_of_prepare hDraft hSealed hSign
  have hSurvives := survives_of_prepare hRead hPrepare
  obtain ⟨_, hPublic, _⟩ := hVerifies.id
  obtain ⟨shown, hShown, _⟩ := bind_eq_ok.mp hPublic
  obtain ⟨held, hHeld⟩ := Committer.exists_hideGraph_of_stripGraph hShown
  refine ⟨draft, sealed, root, message, value, { prepared with graph := shown },
    { prepared with graph := held }, hDraft, hSealed, hMessage, hValue, hText,
    strip_eq_ok.mpr ⟨shown, hShown, rfl⟩, bind_eq_ok.mpr ⟨held, hHeld, rfl⟩, ?_⟩
  have hPublicView :=
    verifies_of_view hSurvives hVerifies Committer.keeps_stripped
      (fun _ _ _ h => by cases h; rfl) hShown
  have hHeldView := verifies_of_view hSurvives hVerifies Committer.keeps_hidden
    (fun _ e _ h => by cases h; exact e.stripped_hidden) hHeld
  have hForms :
      ∀ x ∈ [prepared, { prepared with graph := shown },
        { prepared with graph := held }],
      Survives Document.ofNormal? Document.json maxDepth x ∧
      p.Verifies x root message value :=
    List.forall_mem_cons.mpr ⟨⟨hSurvives, hVerifies⟩,
      List.forall_mem_cons.mpr ⟨hPublicView,
        List.forall_mem_singleton.mpr hHeldView⟩⟩
  intro x hx
  obtain ⟨hForm, hFormVerifies⟩ := hForms x hx
  exact ⟨Document.arrives_iff_of_survives hForm, hFormVerifies⟩

/-! ## A dataset with a private entry -/

/-- The text of a document that holds one entry to be kept private. -/
def rawText : String :=
  "\x7b\"@graph\":[\x7b\"@id\":\"a\",\"properties\":\x7b\"private\":" ++
    "[\x7b\"data\":1,\"isPrivate\":true\x7d]\x7d\x7d]\x7d"

/-- The digest of what is signed when the document is prepared at the beginning
of 1970. -/
def rawDigest : Word :=
  Word.ofNat 0x61fd2630caa6dca3baeae7bd05cc73cb8ba301f0d1b0825937be5e010770e3b7

set_option maxRecDepth 100000 in
/-- The least key signs a dataset that is prepared of the document. -/
theorem exists_prepare_raw : ∃ d prepared, Document.parse rawText = .ok d ∧
    discreetPublisher.prepare d unitKey ⟨0⟩ = .ok prepared := by
  have hParsed : (Document.parse rawText).toOption.isSome := by decide +kernel
  have hViewed : ∀ d ∈ (Document.parse rawText).toOption,
      (discreetPublisher.draft d ⟨0⟩ >>= discreetPublisher.withRootHash >>=
        discreetPublisher.strip).toOption.isSome := by
    decide +kernel
  have hDigest : ∀ d ∈ (Document.parse rawText).toOption,
      ∀ view ∈ (discreetPublisher.draft d ⟨0⟩ >>=
        discreetPublisher.withRootHash >>= discreetPublisher.strip).toOption,
      Message.digest ((Json.render view.unsigned.sorted.json.normalize).flatMap
        String.utf8EncodeChar) = rawDigest := by
    decide +kernel
  have hSigned : (Ecdsa.sign? unitKey rawDigest).isSome := by decide +kernel
  obtain ⟨d, hd⟩ := Option.isSome_iff_exists.mp hParsed
  obtain ⟨view, hv⟩ := Option.isSome_iff_exists.mp (hViewed d hd)
  obtain ⟨sealed, hSealed, hView⟩ := bind_eq_ok.mp (toOption_eq_some.mp hv)
  obtain ⟨draft, hDraft, hSealed⟩ := bind_eq_ok.mp hSealed
  obtain ⟨s, hs⟩ := Option.isSome_iff_exists.mp hSigned
  obtain ⟨prepared, hSign⟩ := exists_sign hView (hDigest d hd view hv) hs
  exact ⟨d, prepared, toOption_eq_some.mp hd,
    prepare_eq_ok.mpr ⟨draft, sealed, hDraft, hSealed, hSign⟩⟩

theorem verifies_everywhere_raw :
    ∃ d prepared draft sealed root message value shown held,
      Document.parse rawText = .ok d ∧
      discreetPublisher.prepare d unitKey ⟨0⟩ = .ok prepared ∧
      discreetPublisher.draft d ⟨0⟩ = .ok draft ∧
      discreetPublisher.withRootHash draft = .ok sealed ∧
      discreetPublisher.signedBytes sealed = .ok message ∧
      Message.sign message unitKey = .ok value ∧
      prepared.header.bind Header.rootText? = some root.text ∧
      discreetPublisher.strip prepared = .ok shown ∧
      discreetPublisher.hide prepared = .ok held ∧
      ∀ x ∈ [prepared, shown, held], (x.Arrives x ↔ x.json.ReadsBack) ∧
        discreetPublisher.Verifies x root message value := by
  obtain ⟨d, prepared, hRead, hPrepare⟩ := exists_prepare_raw
  obtain ⟨draft, sealed, root, message, value, shown, held, hAll⟩ :=
    verifies_everywhere hRead hPrepare
  exact ⟨d, prepared, draft, sealed, root, message, value, shown, held, hRead,
    hPrepare, hAll⟩

end Publisher
end SealedGraph
