import Mathlib
import SealedGraph.Proofs.Dataset.PreparedViews
import SealedGraph.Proofs.Exchange.Purchase
import SealedGraph.Proofs.Private.ViewsOfViews

/-!
# Datasets that are handed on

What was signed or prepared is handed on from one to another: its public view
is made, or the view of a holder, or data that were bought are put back into
it.  A step of this kind does not show in public, and leaves nothing to commit
to where there was nothing before; so the same holds of any number of steps.

Whatever was made of the graph of a signed document, its signer is recovered
over the bytes that were signed.  Whatever was made of the graph of a prepared
dataset, preparing it again at the same time changes nothing: the header says
what it was built from, and id, root hash and signature come from the public
view.

## Main results

* `stripGraph_of_handed`, `commitGraph_of_handed`: what all steps keep.
* `recoversOver_of_handed`: who signed a document that was handed on.
* `prepare_of_handed`: a dataset that was handed on is prepared as it is.
* `prepare_prepared`: what preparing a dataset again gives, and its views.
-/

namespace SealedGraph

/-! ## Steps -/

namespace Committer

/-- A graph is replaced by one of its views, or data are put back into it. -/
inductive Hands (c : Committer) :
    List GraphObject → List GraphObject → Prop where
  | strip {graph shown : List GraphObject}
      (h : c.stripGraph graph = .ok shown) :
      Hands c graph shown
  | hide {graph held : List GraphObject} (h : c.hideGraph graph = .ok held) :
      Hands c graph held
  | restore {graph restored : List GraphObject} {objectId : String}
      {data : Json}
      (h : c.restoreGraph graph objectId data = .ok restored) :
        Hands c graph restored

variable {c : Committer} {graph view : List GraphObject}

/-- A step does not show in public. -/
theorem Hands.stripGraph (h : c.Hands graph view) :
    c.stripGraph view = c.stripGraph graph := by
  cases h with
  | strip hShown => exact (stripGraph_stripGraph hShown).trans hShown.symm
  | hide hHeld => exact stripGraph_hideGraph hHeld
  | restore hRestore => exact stripGraph_restoreGraph hRestore

/-- A step leaves nothing to commit to. -/
theorem Hands.commitGraph (h : c.Hands graph view)
    (hCommit : c.commitGraph graph = .ok graph) :
    c.commitGraph view = .ok view := by
  cases h with
  | strip hShown => exact commitGraph_stripGraph hCommit hShown
  | hide hHeld => exact commitGraph_hideGraph hCommit hHeld
  | restore hRestore => exact commitGraph_restoreGraph hCommit hRestore

/-- What becomes of a graph in any number of steps. -/
def Handed (c : Committer) : List GraphObject → List GraphObject → Prop :=
  Relation.ReflTransGen c.Hands

theorem stripGraph_of_handed (h : c.Handed graph view) :
    c.stripGraph view = c.stripGraph graph := by
  induction h with
  | refl => rfl
  | tail _ hStep ih => exact hStep.stripGraph.trans ih

theorem commitGraph_of_handed (h : c.Handed graph view)
    (hCommit : c.commitGraph graph = .ok graph) :
    c.commitGraph view = .ok view := by
  induction h with
  | refl => exact hCommit
  | tail _ hStep ih => exact hStep.commitGraph ih

end Committer

namespace Publisher

variable {p : Publisher} {key : Ecdsa.PrivateKey} {created : Instant}

/-- A document with a public view has a view for a holder, and the graphs of
both, like its own, are what its graph can become. -/
theorem exists_views {d : Document} {message : Bytes}
    (h : p.signedBytes d = .ok message) :
    ∃ shown held, p.strip d = .ok shown ∧ p.hide d = .ok held ∧
      ∀ x ∈ [d, shown, held], ∃ graph, p.committer.Handed d.graph graph ∧
        { d with graph := graph } = x := by
  obtain ⟨_, hView, _⟩ := signedBytes_eq_ok.mp h
  obtain ⟨shown, hShown, rfl⟩ := strip_eq_ok.mp hView
  obtain ⟨held, hHeld⟩ := Committer.exists_hideGraph_of_stripGraph hShown
  refine ⟨_, { d with graph := held }, hView, bind_eq_ok.mpr ⟨held, hHeld, rfl⟩,
    ?_⟩
  simp only [List.forall_mem_cons]
  exact ⟨⟨d.graph, .refl, rfl⟩, ⟨shown, .single (.strip hShown), rfl⟩,
    ⟨held, .single (.hide hHeld), rfl⟩, nofun⟩

/-! ## Signed documents -/

/-- Signing changes the signature of a document and nothing else.  The signature
is one over the bytes that were signed, in the signed document, in its public
view and the view of a holder, and with whatever graph its own has become.
Signatures that the document had before do not matter. -/
theorem recoversOver_of_handed {d signed : Document}
    (hSign : p.sign d key = .ok signed) :
    ∃ message value shown held, p.signedBytes d = .ok message ∧
      Message.sign message key = .ok value ∧
      { d with signature := some ⟨value, Signature.scheme⟩ } = signed ∧
      p.strip signed = .ok shown ∧ p.hide signed = .ok held ∧
      (∀ x ∈ [signed, shown, held], p.RecoversOver x message value) ∧
      ∀ graph, p.committer.Handed signed.graph graph →
        p.RecoversOver { signed with graph := graph } message value := by
  obtain ⟨message, value, hMessage, hValue, hSigned⟩ := sign_eq_ok.mp hSign
  have hSignature : signed.signature = some ⟨value, Signature.scheme⟩ := by
    rw [← hSigned]
  have hBytes : p.signedBytes signed = .ok message := by
    rw [← hSigned, signedBytes_withSignature]
    exact hMessage
  have hHanded (graph : List GraphObject)
      (h : p.committer.Handed signed.graph graph) :
      p.RecoversOver { signed with graph := graph } message value := by
    have hPublic := Committer.stripGraph_of_handed h
    exact recoversOver hSignature ((signedBytes_withGraph hPublic).trans hBytes)
  obtain ⟨shown, held, hStrip, hHide, hViews⟩ := exists_views hBytes
  refine ⟨message, value, shown, held, hMessage, hValue, hSigned, hStrip, hHide,
    ?_, hHanded⟩
  intro x hx
  obtain ⟨graph, hGraph, rfl⟩ := hViews x hx
  exact hHanded graph hGraph

/-- A document that was signed in some other way, gives a null for its signature
besides, and holds an entry with its data and the same entry as the public sees
it. -/
def resignedDocument : Document :=
  let hash := Word.ofNat 0x74727565
  { graph := [(GraphObject.new "a").withProperty "secret" (.array
      [{ PrivateEntry.new (.bool true) with hash := some hash }.json,
        PrivateEntry.json { hash := some hash }])]
    signature := some ⟨"0x", "none"⟩
    extra := [("signature", .null)] }

/-- The digest of what is signed of it. -/
def resignedDigest : Word :=
  Word.ofNat 0x00f1bb2c13b1d14ea00f852b619205f28b1b27554dea0ee0c04b1943555eeef1

theorem recoversOver_of_handed_resigned :
    ∃ signed message value shown held restored,
    discreetPublisher.sign resignedDocument unitKey = .ok signed ∧
    discreetPublisher.signedBytes resignedDocument = .ok message ∧
    Message.sign message unitKey = .ok value ∧
    { resignedDocument with signature := some ⟨value, Signature.scheme⟩ } =
      signed ∧
    discreetPublisher.strip signed = .ok shown ∧
    discreetPublisher.hide signed = .ok held ∧
    discreetPublisher.committer.restoreGraph signed.graph "a" (.bool true) =
      .ok restored ∧
    ∀ x ∈ [signed, shown, held, { signed with graph := restored }],
      discreetPublisher.RecoversOver x message value := by
  have hViewed :
      (discreetPublisher.strip resignedDocument).toOption.isSome := by
    decide +kernel
  have hDigest : ∀ view ∈ (discreetPublisher.strip resignedDocument).toOption,
      Message.digest ((Json.render view.unsigned.sorted.json.normalize).flatMap
        String.utf8EncodeChar) = resignedDigest := by
    decide +kernel
  have hKey : (Ecdsa.sign? unitKey resignedDigest).isSome := by decide +kernel
  have hRestored :
      (discreetPublisher.committer.restoreGraph resignedDocument.graph "a"
        (.bool true)).toOption.isSome := by
    decide +kernel
  obtain ⟨view, hv⟩ := Option.isSome_iff_exists.mp hViewed
  obtain ⟨s, hs⟩ := Option.isSome_iff_exists.mp hKey
  obtain ⟨restored, hRestore⟩ := exists_ok hRestored
  obtain ⟨signed, hSign⟩ :=
    exists_sign (toOption_eq_some.mp hv) (hDigest view hv) hs
  obtain ⟨message, value, shown, held, hMessage, hValue, hSigned, hStrip, hHide,
    hViews, hHanded⟩ :=
    recoversOver_of_handed hSign
  have hGraph : signed.graph = resignedDocument.graph := by rw [← hSigned]
  rw [← hGraph] at hRestore
  refine ⟨signed, message, value, shown, held, restored, hSign, hMessage,
    hValue, hSigned, hStrip, hHide, hRestore, ?_⟩
  simp only [List.forall_mem_cons] at hViews ⊢
  exact ⟨hViews.1, hViews.2.1, hViews.2.2.1,
    hHanded restored (.single (.restore hRestore)), nofun⟩

/-! ## Prepared datasets -/

/-- What a raw document says of the version of the format is never an empty
text. -/
theorem version_descriptionOf (d : Document) :
    (descriptionOf d).version ≠ some "" := by
  unfold descriptionOf Header.describe
  cases d.header with
  | none => exact nofun
  | some header =>
      by_cases hEmpty : header.version = ""
      · simp [hEmpty]
      · simp [hEmpty]

/-- A header that was built, with whatever root hash, says what it was built
from, and which version that is. -/
theorem describe_header {d : Description} (hVersion : d.version ≠ some "")
    (text : String) :
    ((p.header d created).withRootText text).describe =
      { d with
        version := some (d.version.getD Description.defaultVersion) } := by
  have hNamed : d.version.getD Description.defaultVersion ≠ "" := by
    cases hGiven : d.version with
    | none => decide
    | some version => exact fun h => hVersion (hGiven.trans (congrArg some h))
  have hSays : ((p.header d created).withRootText text).describe.version =
      some (d.version.getD Description.defaultVersion) := if_neg hNamed
  rw [← hSays]
  rfl

/-- A draft is made again of a dataset with its header and with a graph that has
the same public view and in which there is nothing left to commit to. -/
theorem draft_withGraph {d draft x : Document}
    (hDraft : p.draft d created = .ok draft) {text : String}
    (hHeader : x.header = (draft.withRootText text).header)
    (hCommit : p.committer.commitGraph x.graph = .ok x.graph)

    (hSame :
      p.committer.stripGraph x.graph = p.committer.stripGraph draft.graph) :
    p.draft x created = .ok { draft with graph := x.graph } := by
  obtain ⟨graph, hash, _, hHash, rfl⟩ := draft_eq_ok.mp hDraft
  have hDescription : descriptionOf x = { descriptionOf d with
      version :=
        some ((descriptionOf d).version.getD Description.defaultVersion) } := by
    rw [descriptionOf, hHeader]
    exact describe_header (version_descriptionOf d) text
  have hPublic : p.publicHash x.graph = .ok hash := by
    rw [publicHash, hSame]
    exact hHash
  refine draft_eq_ok.mpr ⟨x.graph, hash, hCommit, hPublic, ?_⟩
  rw [hDescription]
  rfl

/-- Sealing and signing do not depend on more of the graph than its public
view. -/
theorem withRootHash_withGraph {d sealed : Document}
    (hSealed : p.withRootHash d = .ok sealed) {graph : List GraphObject}
    (hSame : p.committer.stripGraph graph = p.committer.stripGraph d.graph) :
    p.withRootHash { d with graph := graph } =
      .ok { sealed with graph := graph } := by
  obtain ⟨root, hRoot, rfl⟩ := withRootHash_eq_ok.mp hSealed
  exact withRootHash_eq_ok.mpr ⟨root, (rootHash_withGraph hSame).trans hRoot,
    rfl⟩

theorem sign_withGraph {d signed : Document} (hSign : p.sign d key = .ok signed)
    {graph : List GraphObject}
    (hSame : p.committer.stripGraph graph = p.committer.stripGraph d.graph) :
    p.sign { d with graph := graph } key =
      .ok { signed with graph := graph } := by
  obtain ⟨message, value, hMessage, hValue, rfl⟩ := sign_eq_ok.mp hSign
  exact sign_eq_ok.mpr ⟨message, value,
    (signedBytes_withGraph hSame).trans hMessage, hValue, rfl⟩

/-- A prepared dataset that was handed on is prepared as it is. -/
theorem prepare_of_handed {d prepared : Document}
    (hPrepare : p.prepare d key created = .ok prepared)
    {graph : List GraphObject} (h : p.committer.Handed prepared.graph graph) :
    p.prepare { prepared with graph := graph } key created =
      .ok { prepared with graph := graph } := by
  obtain ⟨draft, sealed, hDraft, hSealed, hSign⟩ := prepare_eq_ok.mp hPrepare
  obtain ⟨root, _, rfl⟩ := withRootHash_eq_ok.mp hSealed
  obtain ⟨_, value, _, _, rfl⟩ := sign_eq_ok.mp hSign
  obtain ⟨_, _, hGraph, _, rfl⟩ := draft_eq_ok.mp hDraft
  have hSame := Committer.stripGraph_of_handed h
  have hCommit :=
    Committer.commitGraph_of_handed h (Committer.commitGraph_commitGraph hGraph)
  exact prepare_eq_ok.mpr ⟨_, _, draft_withGraph hDraft rfl hCommit hSame,
    withRootHash_withGraph hSealed hSame, sign_withGraph hSign hSame⟩

/-- A root hash comes from an id, the creator in the header and a graph. -/
theorem rootHash_congr {d d' : Document} (hId : d.id = d'.id)
    (hCreator : d.header.map (·.creator) = d'.header.map (·.creator))
    (hGraph : d.graph = d'.graph) : p.rootHash d = p.rootHash d' := by
  unfold rootHash distribution Document.requireHeader
  rw [hId, hGraph]
  cases hHeader : d.header with
  | none =>
      rw [hHeader] at hCreator
      rw [Option.map_eq_none_iff.mp hCreator.symm]
  | some header =>
      rw [hHeader] at hCreator
      obtain ⟨other, hOther, hSame⟩ := Option.map_eq_some_iff.mp hCreator.symm
      simp only [hOther, bind, Except.bind, hSame]

/-- Preparing a prepared dataset again, with the same key and at the same time,
changes nothing; nor does preparing its public view or the view of a holder.
All three have one id, header, root hash and signature. -/
theorem prepare_prepared {d prepared : Document}
    (hPrepare : p.prepare d key created = .ok prepared) :
    ∃ root shown held, prepared.header.bind Header.rootText? = some root.text ∧
      p.strip prepared = .ok shown ∧ p.hide prepared = .ok held ∧
      ∀ x ∈ [prepared, shown, held], p.prepare x key created = .ok x ∧
        x.id = prepared.id ∧
        x.header = prepared.header ∧ p.rootHash x = .ok root ∧
        x.signature = prepared.signature := by
  obtain ⟨draft, sealed, hDraft, hSealed, hSign⟩ := prepare_eq_ok.mp hPrepare
  obtain ⟨root, message, _, hRoot, hMessage, _, hText, hVerifies⟩ :=
    verifies_of_prepare hDraft hSealed hSign
  have hPrepared : p.rootHash prepared = .ok root := by
    obtain ⟨_, _, _, _, rfl⟩ := draft_eq_ok.mp hDraft
    obtain ⟨_, _, rfl⟩ := withRootHash_eq_ok.mp hSealed
    obtain ⟨_, _, _, _, rfl⟩ := sign_eq_ok.mp hSign
    rw [← hRoot]
    exact rootHash_congr rfl rfl rfl
  have hHanded (graph : List GraphObject)
      (h : p.committer.Handed prepared.graph graph) :
      let x : Document := { prepared with graph := graph }
      p.prepare x key created = .ok x ∧ x.id = prepared.id ∧
        x.header = prepared.header ∧
        p.rootHash x = .ok root ∧ x.signature = prepared.signature := by
    have hPublic := rootHash_withGraph (Committer.stripGraph_of_handed h)
    exact ⟨prepare_of_handed hPrepare h, rfl, rfl, hPublic.trans hPrepared, rfl⟩
  obtain ⟨shown, held, hStrip, hHide, hViews⟩ :=
    exists_views hVerifies.signer.signedBytes
  refine ⟨root, shown, held, hText, hStrip, hHide, fun x hx => ?_⟩
  obtain ⟨graph, hGraph, rfl⟩ := hViews x hx
  exact hHanded graph hGraph

/-- The dataset that is prepared of one entry to be kept private. -/
theorem prepare_prepared_raw :
    ∃ d prepared root shown held, Document.parse rawText = .ok d ∧
    discreetPublisher.prepare d unitKey ⟨0⟩ = .ok prepared ∧
    prepared.header.bind Header.rootText? = some root.text ∧
    discreetPublisher.strip prepared = .ok shown ∧
    discreetPublisher.hide prepared = .ok held ∧
    ∀ x ∈ [prepared, shown, held],
      discreetPublisher.prepare x unitKey ⟨0⟩ = .ok x ∧
      x.id = prepared.id ∧ x.header = prepared.header ∧
      discreetPublisher.rootHash x = .ok root ∧
      x.signature = prepared.signature := by
  obtain ⟨d, prepared, hRead, hPrepare⟩ := exists_prepare_raw
  obtain ⟨root, shown, held, hAll⟩ := prepare_prepared hPrepare
  exact ⟨d, prepared, root, shown, held, hRead, hPrepare, hAll⟩

end Publisher
end SealedGraph
