import SealedGraph.Dataset.Authorship
import SealedGraph.Proofs.Graph.Survival
import SealedGraph.Proofs.Private.Views

/-!
# The signature of a received document

A signed document is sent as a text.  If its numbers are read back, its receiver
recovers the signer over the bytes that were signed, from the document or from
its public view, unless the text that was signed gave an explicit `null` for the
signature.  That null is kept among the other members and is signed, but gives
way to the signature when the signed document is written; the receiver then
recovers a signer over other bytes.

## Main results

* `strip_strip`: a public view is its own public view.
* `canonicalText_unsigned_eq_iff`: a parked null of the signature is signed.
* `signer_of_received`: over which bytes the receiver recovers the signer.
-/

namespace SealedGraph

open Json

/-! ## Documents on their way -/

/-- What is read of a document that was sent as any text of its value, of which
the canonical and the indented one are two. -/
structure Document.Arrives (sent received : Document) : Prop where
  canonicalText : Json.parse? sent.json.canonicalText = some sent.json
  indentedText : Json.parse? sent.json.indentedText = some sent.json
  parse : ∀ wire, Json.parse? wire = some sent.json →
    Document.parse wire = .ok received

namespace Document

/-- A signature belongs beside the other members as nothing did in its place. -/
theorem recorded_withSignature {d : Document}
    (h : Recorded fieldNames nullable d.fields d.extra) (s : Signature) :
    Recorded fieldNames nullable { d with signature := some s }.fields
      d.extra := by
  have hFilled := h.filled
  simp only [fields, List.forall_mem_cons] at hFilled
  obtain ⟨hId, hType, hHeader, hGraph, _⟩ := hFilled
  refine ⟨h.distinct, by simp [fields, fieldNames, nullable], ?_,
    h.ascending, h.apart⟩
  simp only [fields, List.forall_mem_cons]
  exact ⟨hId, hType, hHeader, hGraph,
    fun _ hNull => Json.noConfusion (Option.some.inj hNull),
    List.forall_mem_nil _⟩

/-- There are no numbers in a signature. -/
theorem readsBack_withSignature {text : String} {d : Document}
    (hRead : parse text = .ok d) (hNumbers : d.json.ReadsBack) (s : Signature) :
    { d with signature := some s }.json.ReadsBack := by
  have hRecorded := recorded_of_survives (by decide) (survives_of_parse hRead)
  obtain ⟨hFields, hExtra⟩ := hRecorded.readsBack_iff.mp hNumbers
  refine (recorded_withSignature hRecorded s).readsBack_iff.mpr ⟨?_, hExtra⟩
  simp only [fields, List.forall_mem_cons] at hFields ⊢
  obtain ⟨hId, hType, hHeader, hGraph, _⟩ := hFields
  refine ⟨hId, hType, hHeader, hGraph, fun v hv => ?_, List.forall_mem_nil _⟩
  cases hv
  rw [Signature.json_eq]
  exact readsBack_object.mpr (List.forall_mem_cons.mpr
    ⟨readsBack_string _, List.forall_mem_singleton.mpr (readsBack_string _)⟩)

/-- A document that is signed after it was read arrives with its signature, if
its numbers are read back. -/
theorem arrives_withSignature {text : String} {d : Document}
    (hRead : parse text = .ok d) (hNumbers : d.json.ReadsBack) (s : Signature) :
    Arrives { d with signature := some s } (d.withSignature s) := by
  obtain ⟨v, _, hTidy, hv⟩ := parse_eq_ok.mp hRead
  obtain ⟨hSent, hReceived⟩ := ofNormal?_withSignature (by decide) hTidy hv s
  have hAgain :=
    reread?_eq_self_iff.mpr (readsBack_withSignature hRead hNumbers s)
  constructor
  · exact (parse?_canonicalText_of_tidy hSent).trans hAgain
  · exact (parse?_indentedText_of_tidy hSent).trans hAgain
  · intro wire hWire
    exact parse_eq_ok.mpr ⟨_, hWire, hSent, hReceived⟩

end Document

/-! ## What is signed -/

/-- Values with one canonical text have members of the same names. -/
theorem Json.mem_names_of_canonicalText_eq {ms ns : Members Json}
    (h : (Json.object ms).canonicalText = (Json.object ns).canonicalText)
    {name : String} :
    name ∈ ms.map (·.1) ↔ name ∈ ns.map (·.1) := by
  have hSame := eq_of_canonicalText_eq h
  rw [normalize, normalize, object.injEq] at hSame
  rw [← names_normalizeMembers ms, ← Members.mem_names_ofList, hSame,
    Members.mem_names_ofList, names_normalizeMembers]

namespace Document

/-- A document without signature has a member of that name if, and only if, a
null is parked. -/
theorem signature_mem_written {d : Document} (hUnsigned : d.signature = none) :
    "signature" ∈ (written d.fields d.extra).map (·.1) ↔
      "signature" ∈ d.extra.map (·.1) := by
  have hField : ∀ v, ("signature", some v) ∉ d.fields := by
    simp [fields, hUnsigned]
  rw [written, Members.mem_names_ofList, List.map_append, List.mem_append]
  constructor
  · rintro (h | h)
    · obtain ⟨⟨_, v⟩, hPresent, rfl⟩ := List.mem_map.mp h
      exact absurd (mem_present.mp hPresent) (hField v)
    · obtain ⟨member, hMember, hName⟩ := List.mem_map.mp h
      exact List.mem_map.mpr ⟨member, (mem_unshadowed.mp hMember).1, hName⟩
  · intro h
    obtain ⟨⟨_, v⟩, hMember, rfl⟩ := List.mem_map.mp h
    exact .inr (List.mem_map.mpr
      ⟨_, mem_unshadowed.mpr ⟨hMember, fun _ v => hField v⟩, rfl⟩)

/-- What is signed of a public view. -/
def unsigned (view : Document) : Document := { view with signature := none }

/-- A parked null is signed, and gives way to the signature: then the document
that arrives has another text to be signed. -/
theorem canonicalText_unsigned_eq_iff (view : Document) (s : Signature) :
    (view.withSignature s).unsigned.canonicalText =
      view.unsigned.canonicalText ↔
      "signature" ∉ view.extra.map (·.1) := by
  constructor
  · intro hSame hParked
    have hSent :
        "signature" ∈
          (written view.unsigned.sorted.fields view.extra).map (·.1) :=
      (signature_mem_written (d := view.unsigned.sorted) rfl).mpr hParked
    have hArrived := (mem_names_of_canonicalText_eq hSame).mpr hSent
    have hKept :=
      (signature_mem_written (d := (view.withSignature s).unsigned.sorted)
        rfl).mp hArrived
    obtain ⟨member, hMember, hName⟩ := List.mem_map.mp hKept
    exact absurd hName (of_decide_eq_true (List.mem_filter.mp hMember).2)
  · intro hFree
    have hExtra : (view.withSignature s).extra = view.extra := by
      refine List.filter_eq_self.mpr fun member hMember =>
        decide_eq_true fun hName => hFree ?_
      exact List.mem_map.mpr ⟨member, hMember, hName⟩
    have hView : (view.withSignature s).unsigned = view.unsigned := by
      unfold unsigned
      rw [hExtra]
      rfl
    rw [hView]

end Document

/-! ## Who signed -/

namespace Publisher

variable {p : Publisher}

theorem signedBytes_eq_ok {d : Document} {message : Bytes} :
    p.signedBytes d = .ok message ↔
      ∃ view, p.strip d = .ok view ∧
        Bytes.ofText view.unsigned.canonicalText = message := by
  unfold signedBytes
  rw [bind_eq_ok]
  constructor
  · rintro ⟨view, hView, hMessage⟩
    exact ⟨view, hView, Except.ok.inj hMessage⟩
  · rintro ⟨view, hView, rfl⟩
    exact ⟨view, hView, rfl⟩

theorem strip_eq_ok {d view : Document} :
    p.strip d = .ok view ↔
      ∃ graph, p.committer.stripGraph d.graph = .ok graph ∧
        { d with graph := graph } = view := by
  unfold strip
  rw [bind_eq_ok]
  constructor
  · rintro ⟨graph, hGraph, hView⟩
    exact ⟨graph, hGraph, Except.ok.inj hView⟩
  · rintro ⟨graph, hGraph, rfl⟩
    exact ⟨graph, hGraph, rfl⟩

/-- A public view is its own public view. -/
theorem strip_strip {d view : Document} (h : p.strip d = .ok view) :
    p.strip view = .ok view := by
  obtain ⟨graph, hGraph, rfl⟩ := strip_eq_ok.mp h
  exact strip_eq_ok.mpr ⟨graph, Committer.stripGraph_stripGraph hGraph, rfl⟩

theorem sign_eq_ok {d signed : Document} {key : Ecdsa.PrivateKey} :
    p.sign d key = .ok signed ↔ ∃ message value, p.signedBytes d = .ok message ∧
      Message.sign message key = .ok value ∧
      { d with signature := some ⟨value, Signature.scheme⟩ } = signed := by
  unfold sign
  simp only [bind_eq_ok]
  constructor
  · rintro ⟨message, hMessage, value, hValue, hSigned⟩
    exact ⟨message, value, hMessage, hValue, Except.ok.inj hSigned⟩
  · rintro ⟨message, value, hMessage, hValue, rfl⟩
    exact ⟨message, hMessage, value, hValue, rfl⟩

/-- The signer of a document is recovered over a message, and whoever that is
passes the check. -/
structure RecoversOver (p : Publisher) (d : Document) (message : Bytes)
    (value : String) : Prop where
  signedBytes : p.signedBytes d = .ok message
  signer : p.signer d = Message.recover message value
  verifySigner : ∀ address, Message.recover message value = .ok address →
    p.verifySigner d address = .ok ()

theorem recoversOver {d : Document} {message : Bytes} {value : String}
    (hSignature : d.signature = some ⟨value, Signature.scheme⟩)
    (hMessage : p.signedBytes d = .ok message) :
    p.RecoversOver d message value := by
  have hSigner : p.signer d = Message.recover message value := by
    unfold Publisher.signer
    rw [hSignature]
    simp only [ne_eq, not_true_eq_false, if_false, hMessage, bind, Except.bind]
  refine ⟨hMessage, hSigner, fun address hAddress => ?_⟩
  unfold Publisher.verifySigner
  simp only [hSigner, hAddress, bind, Except.bind, if_true]
  rfl

/-- A document that was read, and whose numbers are read back, is signed and
arrives at its receiver, who recovers one signer from it and from its public
view.  That is done over the bytes that were signed if, and only if, the text of
the document gave no `null` for the signature. -/
theorem signer_of_received {text : String} {d signed : Document}
    {key : Ecdsa.PrivateKey} (hRead : Document.parse text = .ok d)
    (hNumbers : d.json.ReadsBack) (hSign : p.sign d key = .ok signed) :
    ∃ message value received view found,
      p.signedBytes d = .ok message ∧ Message.sign message key = .ok value ∧
      signed.Arrives received ∧ p.strip received = .ok view ∧
      p.RecoversOver received found value ∧ p.RecoversOver view found value ∧
      (found = message ↔
        (Json.parse? text).bind (·.get? "signature") ≠ some .null) := by
  obtain ⟨message, value, hMessage, hValue, rfl⟩ := sign_eq_ok.mp hSign
  obtain ⟨view, hView, rfl⟩ := signedBytes_eq_ok.mp hMessage
  obtain ⟨graph, hGraph, rfl⟩ := strip_eq_ok.mp hView
  have hArrives :=
    Document.arrives_withSignature hRead hNumbers ⟨value, Signature.scheme⟩
  have hStrip : p.strip (d.withSignature ⟨value, Signature.scheme⟩) =
      .ok ({ d with graph := graph }.withSignature ⟨value, Signature.scheme⟩) :=
    strip_eq_ok.mpr ⟨graph, hGraph, rfl⟩
  have hReceived := recoversOver rfl (signedBytes_eq_ok.mpr ⟨_, hStrip, rfl⟩)
  have hPublic :=
    recoversOver rfl (signedBytes_eq_ok.mpr ⟨_, strip_strip hStrip, rfl⟩)
  refine ⟨_, value, _, _, _, hMessage, hValue, hArrives, hStrip, hReceived,
    hPublic, ?_⟩
  have hTexts :=
    Document.canonicalText_unsigned_eq_iff { d with graph := graph }
      ⟨value, Signature.scheme⟩
  rw [ne_eq, ← Document.signature_mem_extra hRead]
  constructor
  · intro hSame
    exact hTexts.mp (Bytes.ofText_injective hSame)
  · intro hFree
    exact congrArg Bytes.ofText (hTexts.mpr hFree)

/-! ## Signing -/

/-- Stated of the function, and not of its values: these would be evaluated, and
the secret number of a signature takes long to compute. -/
theorem sign_eq : Message.sign = fun message key =>
    match Ecdsa.sign? key (Message.digest message) with
    | some s => .ok ("0x" ++ Hex.encode (Message.signatureBytes s))
    | none => .error (.signature .signingFailed) := by
  delta Message.sign
  rfl

/-- A document is signed if the key signs the digest of its message, which is
computed here on lists of characters. -/
theorem exists_sign {d view : Document} {key : Ecdsa.PrivateKey}
    {s : Ecdsa.Signature} (hView : p.strip d = .ok view) {digest : Word}
    (hDigest :
      Message.digest ((Json.render view.unsigned.sorted.json.normalize).flatMap
        String.utf8EncodeChar) = digest)
    (hSign : Ecdsa.sign? key digest = some s) :
    ∃ signed, p.sign d key = .ok signed := by
  have hMessage :
      p.signedBytes d = .ok (Bytes.ofText view.unsigned.canonicalText) :=
    signedBytes_eq_ok.mpr ⟨view, hView, rfl⟩
  have hBytes : Bytes.ofText view.unsigned.canonicalText =
      (Json.render view.unsigned.sorted.json.normalize).flatMap
        String.utf8EncodeChar :=
    Bytes.ofText_ofList _
  have hValue : Message.sign (Bytes.ofText view.unsigned.canonicalText) key =
      .ok ("0x" ++ Hex.encode (Message.signatureBytes s)) := by
    rw [sign_eq]
    simp only [hBytes, hDigest, hSign]
  exact ⟨_, sign_eq_ok.mpr ⟨_, _, hMessage, hValue, rfl⟩⟩

/-! ## A document that was signed before, and one that gives a null -/

/-- The publisher with the default settings. -/
def plainPublisher : Publisher := ⟨{}, Settings.valid_default⟩

/-- The least private key. -/
def unitKey : Ecdsa.PrivateKey := ⟨1, by decide, by decide⟩

/-- The text of a document that was signed in some other way.  One of its
objects holds a private entry with its hash, and the other one has no id. -/
def signedText : String :=
  "\x7b\"@graph\":[\x7b\"properties\":\x7b\"size\":0.1\x7d\x7d," ++
    "\x7b\"@id\":\"a\",\"properties\":\x7b\"private\":[\x7b\"data\":2.50," ++
    "\"private_data_hash\":\"0x" ++ String.ofList (List.replicate 64 '5') ++
    "\"\x7d]\x7d\x7d]," ++
    "\"signature\":\x7b\"value\":\"0x\",\"type\":\"none\"\x7d\x7d"

/-- The digest of what is signed of it. -/
def signedDigest : Word :=
  Word.ofNat 0x77d332bb71de16d9838836fcb0a0be0a38cf11fa86444506310afe1645e62f0e

set_option maxRecDepth 100000 in
/-- The least key signs it anew, and its address is recovered from what
arrives. -/
theorem signer_of_received_again : ∃ d signed message value received view,
    Document.parse signedText = .ok d ∧ d.graph.map (·.id) = ["", "a"] ∧
      d.signature = some ⟨"0x", "none"⟩ ∧ d.json.ReadsBack ∧
      plainPublisher.sign d unitKey = .ok signed ∧
      plainPublisher.signedBytes d = .ok message ∧
      Message.sign message unitKey = .ok value ∧
      signed.Arrives received ∧ plainPublisher.strip received = .ok view ∧
      plainPublisher.RecoversOver received message value ∧
      plainPublisher.RecoversOver view message value := by
  have hParsed : (Document.parse signedText).toOption.isSome := by
    decide +kernel
  have hGiven : ∀ d ∈ (Document.parse signedText).toOption,
      d.graph.map (·.id) = ["", "a"] ∧
      d.signature = some ⟨"0x", "none"⟩ ∧ d.json.ReadsBack := by
    decide +kernel
  have hViewed : ∀ d ∈ (Document.parse signedText).toOption,
      (plainPublisher.strip d).toOption.isSome := by
    decide +kernel
  have hDigest : ∀ d ∈ (Document.parse signedText).toOption,
      ∀ view ∈ (plainPublisher.strip d).toOption,
      Message.digest ((Json.render view.unsigned.sorted.json.normalize).flatMap
        String.utf8EncodeChar) = signedDigest := by
    decide +kernel
  have hKey : (Ecdsa.sign? unitKey signedDigest).isSome := by decide +kernel
  have hFree :
      (Json.parse? signedText).bind (·.get? "signature") ≠ some .null := by
    have hThere : (((Json.parse? signedText).bind (·.get? "signature")).bind
        Json.members?).isSome := by
      decide +kernel
    intro hNull
    rw [hNull] at hThere
    cases hThere
  obtain ⟨d, hd⟩ := Option.isSome_iff_exists.mp hParsed
  obtain ⟨view, hv⟩ := Option.isSome_iff_exists.mp (hViewed d hd)
  obtain ⟨s, hs⟩ := Option.isSome_iff_exists.mp hKey
  obtain ⟨hIds, hSignature, hNumbers⟩ := hGiven d hd
  have hRead := toOption_eq_some.mp hd
  obtain ⟨signed, hSign⟩ :=
    exists_sign (toOption_eq_some.mp hv) (hDigest d hd view hv) hs
  obtain ⟨message, value, received, shown, found, hMessage, hValue, hArrives,
    hView, hReceived, hPublic, hFound⟩ :=
      signer_of_received hRead hNumbers hSign
  cases hFound.mpr hFree
  exact ⟨d, signed, _, value, received, shown, hRead, hIds, hSignature,
    hNumbers, hSign, hMessage, hValue, hArrives, hView, hReceived, hPublic⟩

/-- The text of a document that gives a null for its signature. -/
def nullText : String := "\x7b\"@graph\":[],\"signature\":null\x7d"

/-- What the least key signs it with. -/
def nullValue : String :=
  "0x1f8e459a8992c29e8b93e5399cae93b7c959c8719aff4709f6a46687dfc4f7df" ++
    "5b21653d0152a63de47e7c5cdd2fff7a29963951bee926adc69c8f4dc6ab48ed1c"

set_option maxRecDepth 100000 in
/-- The text itself is signed; the address of the key is recovered from the
signed document, and not from the document that arrives. -/
theorem signer_lost_to_null : ∃ d signed received message address,
    Document.parse nullText = .ok d ∧
      plainPublisher.sign d unitKey = .ok signed ∧
      plainPublisher.signedBytes d = .ok message ∧
      unitKey.address? = some address ∧
      plainPublisher.verifySigner signed address = .ok () ∧
      signed.Arrives received ∧
      plainPublisher.signedBytes received ≠ .ok message ∧
      plainPublisher.verifySigner received address ≠ .ok () := by
  have hParsed : (Document.parse nullText).toOption.isSome := by decide +kernel
  have hNumbers : ∀ d ∈ (Document.parse nullText).toOption,
      d.json.ReadsBack := by
    decide +kernel
  have hAddress : unitKey.address?.isSome := by decide +kernel
  have hBytes : ∀ d ∈ (Document.parse nullText).toOption,
      (plainPublisher.signedBytes d).toOption =
        some (Bytes.ofText nullText) := by
    decide +kernel
  have hValue :
      (Message.sign (Bytes.ofText nullText) unitKey).toOption =
        some nullValue := by
    decide +kernel
  have hSent : ∀ d ∈ (Document.parse nullText).toOption,
      ∀ address ∈ unitKey.address?,
      (plainPublisher.verifySigner
        { d with signature := some ⟨nullValue, Signature.scheme⟩ }
        address).toOption = some () := by
    decide +kernel
  have hOther : ∀ d ∈ (Document.parse nullText).toOption,
      (plainPublisher.signedBytes
        (d.withSignature ⟨nullValue, Signature.scheme⟩)).toOption ≠
          some (Bytes.ofText nullText) := by
    decide +kernel
  have hLost : ∀ d ∈ (Document.parse nullText).toOption,
      ∀ address ∈ unitKey.address?,
      (plainPublisher.verifySigner
        (d.withSignature ⟨nullValue, Signature.scheme⟩)
        address).toOption ≠ some () := by
    decide +kernel
  obtain ⟨d, hd⟩ := Option.isSome_iff_exists.mp hParsed
  obtain ⟨address, ha⟩ := Option.isSome_iff_exists.mp hAddress
  have hRead := toOption_eq_some.mp hd
  have hMessage := toOption_eq_some.mp (hBytes d hd)
  refine ⟨d, _, _, _, address, hRead,
    sign_eq_ok.mpr ⟨_, nullValue, hMessage, toOption_eq_some.mp hValue, rfl⟩,
    hMessage, ha, toOption_eq_some.mp (hSent d hd address ha),
    Document.arrives_withSignature hRead (hNumbers d hd) _,
    fun h => hOther d hd (toOption_eq_some.mpr h),
    fun h => hLost d hd address ha (toOption_eq_some.mpr h)⟩

end Publisher
end SealedGraph
