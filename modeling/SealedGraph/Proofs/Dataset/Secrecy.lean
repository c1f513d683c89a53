import Mathlib
import SealedGraph.Dataset.Distribution
import SealedGraph.Proofs.Dataset.ReceivedSignature

/-!
# What private data do not reach

Two documents may differ in the data and in the flags of their private entries
and in nothing else.  Then they have one public view, and all that is hashed,
proved or signed of them is the same.  If the flagged entries of two documents
differ in their data, a holder has one view of both.

A view reads, changes and writes entries one by one.  So it is enough that the
form in which an entry is written does not show what the two entries differ in.

## Main results

* `PrivateEntry.exists_read`: what is read of an entry does not depend on data
  and flag otherwise.
* `Committer.mapGraph_congr`: a view that does not tell entries apart does not
  tell graphs apart.
* `Publisher.published_of_secrets`: the public view and all that is made of it,
  and a holder's view.
-/

namespace SealedGraph

open Json

/-! ## Members of records -/

namespace Json

theorem others_others (names : List String) {more : List String}
    (h : ∀ name ∈ names, name ∈ more) (ms : Members Json) :
    others more (others names ms) = others more ms := by
  unfold others
  rw [List.filter_filter]
  apply List.filter_congr
  intro member _
  by_cases hName : member.1 ∈ names
  · simp [hName, h _ hName]
  · simp [hName]

theorem optional_congr {α : Type} {ms ms' : Members Json} {name : String}
    (read : Json → Option α) (h : ms.lookup name = ms'.lookup name) :
    Json.optional ms name read = Json.optional ms' name read := by
  rw [Json.optional, Json.optional, h]

end Json

/-! ## Entries that differ in secrets -/

namespace PrivateEntry

/-- A flag is left out, or `null`, or a truth value. -/
def IsFlag (flag : Option Json) : Prop :=
  flag = none ∨ flag = some .null ∨ ∃ b, flag = some (.bool b)

/-- Two objects with the same members apart from data and flag.  Where they
differ in the flag, both of them have one that can be read. -/
inductive SamePublic : Json → Json → Prop where
  | intro {ms ms' : Members Json}
      (others :
        others ["data", "isPrivate"] ms = others ["data", "isPrivate"] ms')
      (flag : ms.lookup "isPrivate" = ms'.lookup "isPrivate" ∨
        IsFlag (ms.lookup "isPrivate") ∧ IsFlag (ms'.lookup "isPrivate")) :
      SamePublic (.object ms) (.object ms')

/-- Two objects that are flagged private and have the same members apart from
data. -/
inductive SameHeld : Json → Json → Prop where
  | intro {ms ms' : Members Json}
      (others : others ["data"] ms = others ["data"] ms')
      (flag : ms.lookup "isPrivate" = some (.bool true)) :
        SameHeld (.object ms) (.object ms')

/-- What a flag is read as. -/
theorem exists_flag {ms : Members Json} (h : IsFlag (ms.lookup "isPrivate")) :
    ∃ flag, Json.optional ms "isPrivate" bool? = some flag := by
  unfold Json.optional
  rcases h with h | h | ⟨b, h⟩ <;> rw [h]
  · exact ⟨none, rfl⟩
  · exact ⟨none, rfl⟩
  · exact ⟨some b, rfl⟩

/-- Data may be anything. -/
theorem exists_data (ms : Members Json) :
    ∃ data, Json.optional ms "data" some = some data := by
  unfold Json.optional
  split
  · exact ⟨none, rfl⟩
  · exact ⟨none, rfl⟩
  · next v _ _ => exact ⟨some v, rfl⟩

/-- If an entry is read of some members, then one with the same hash and the
same other members is read of members that differ in data and in a flag that can
be read. -/
theorem exists_read {ms ms' : Members Json} {e : PrivateEntry}
    {flag : Option Bool}
    (hOthers :
      others ["data", "isPrivate"] ms = others ["data", "isPrivate"] ms')
    (hFlag : Json.optional ms' "isPrivate" bool? = some flag)
    (hRead : ofJson? (.object ms) = some e) :
    ∃ data,
      ofJson? (.object ms') = some { e with flag := flag, data := data } := by
  simp only [ofJson?, Option.bind_eq_bind, Option.bind_eq_some_iff] at hRead ⊢
  obtain ⟨_, hMembers, _, _, _, _, hash, hHash, he⟩ := hRead
  cases hMembers
  cases he
  obtain ⟨data, hData⟩ := exists_data ms'
  have hSame :
      ms.lookup "private_data_hash" = ms'.lookup "private_data_hash" := by
    have hApart : "private_data_hash" ∉ ["data", "isPrivate"] := by decide
    rw [← lookup_others _ hApart ms, hOthers, lookup_others _ hApart]
  have hExtra :
      others (fields.map (·.1)) ms' = others (fields.map (·.1)) ms := by
    have hFields : ∀ name ∈ ["data", "isPrivate"], name ∈ fields.map (·.1) := by
      decide
    rw [← others_others _ hFields ms', ← hOthers, others_others _ hFields]
  refine ⟨data, ms', rfl, flag, hFlag, data, hData, hash, ?_, by rw [hExtra]⟩
  rw [← hHash]
  exact optional_congr Word.ofJson? hSame.symm

/-- What is read as an entry has a flag that can be read. -/
theorem optional_flag {ms : Members Json} {e : PrivateEntry}
    (h : ofJson? (.object ms) = some e) :
    Json.optional ms "isPrivate" bool? = some e.flag := by
  simp only [ofJson?, Option.bind_eq_bind, Option.bind_eq_some_iff] at h
  obtain ⟨_, hMembers, flag, hFlag, _, _, _, _, he⟩ := h
  cases hMembers
  cases he
  exact hFlag

theorem SamePublic.exists_object {v v' : Json} (h : SamePublic v v') :
    ∃ ms, v = .object ms := by
  cases h
  exact ⟨_, rfl⟩

theorem SamePublic.symm {v v' : Json} (h : SamePublic v v') :
    SamePublic v' v := by
  cases h with
  | intro hOthers hFlag =>
      exact .intro hOthers.symm (hFlag.imp Eq.symm And.symm)

theorem SamePublic.exists_stripped {v v' : Json} (h : SamePublic v v')
    {e : PrivateEntry} (hRead : ofJson? v = some e) :
    ∃ e', ofJson? v' = some e' ∧ e'.stripped = e.stripped := by
  cases h with
  | @intro ms ms' hOthers hFlag =>
      have hReadable :
          ∃ flag, Json.optional ms' "isPrivate" bool? = some flag := by
        rcases hFlag with hSame | ⟨_, hFlag'⟩
        · exact ⟨e.flag,
            (optional_congr bool? hSame).symm.trans (optional_flag hRead)⟩
        · exact exists_flag hFlag'
      obtain ⟨flag, hFlag'⟩ := hReadable
      obtain ⟨data, hRead'⟩ := exists_read hOthers hFlag' hRead
      exact ⟨_, hRead', rfl⟩

theorem SameHeld.lookup_flag {ms ms' : Members Json}
    (hOthers : others ["data"] ms = others ["data"] ms') :
    ms.lookup "isPrivate" = ms'.lookup "isPrivate" := by
  have hApart : "isPrivate" ∉ ["data"] := by decide
  rw [← lookup_others _ hApart ms, hOthers, lookup_others _ hApart]

theorem SameHeld.exists_object {v v' : Json} (h : SameHeld v v') :
    ∃ ms, v = .object ms := by
  cases h
  exact ⟨_, rfl⟩

theorem SameHeld.symm {v v' : Json} (h : SameHeld v v') : SameHeld v' v := by
  cases h with
  | intro hOthers hFlag =>
      exact .intro hOthers.symm ((lookup_flag hOthers).symm.trans hFlag)

theorem SameHeld.exists_hidden {v v' : Json} (h : SameHeld v v')
    {e : PrivateEntry} (hRead : ofJson? v = some e) :
    ∃ e', ofJson? v' = some e' ∧ e'.hidden = e.hidden := by
  cases h with
  | @intro ms ms' hOthers hFlag =>
      have hTrue : e.flag = some true := by
        have hRead' := optional_flag hRead
        rw [Json.optional, hFlag] at hRead'
        exact (Option.some.inj hRead').symm
      have hFlag' : Json.optional ms' "isPrivate" bool? = some e.flag :=
        (optional_congr bool? (lookup_flag hOthers)).symm.trans
          (optional_flag hRead)
      have hMore : ∀ name ∈ ["data"], name ∈ ["data", "isPrivate"] := by decide
      have hLess :
          others ["data", "isPrivate"] ms =
            others ["data", "isPrivate"] ms' := by
        rw [← others_others _ hMore ms, hOthers, others_others _ hMore]
      obtain ⟨data, hRead'⟩ := exists_read hLess hFlag' hRead
      refine ⟨_, hRead', ?_⟩
      have hPrivate : e.isPrivate = true := by rw [isPrivate, hTrue]; rfl
      calc hidden { e with flag := e.flag, data := data } =
            { e with data := none } := if_pos hPrivate
        _ = e.hidden := (if_pos hPrivate).symm

end PrivateEntry

/-! ## Graphs that differ in secrets -/

namespace Committer

/-- Two properties are the same, or both are private, and their entries are the
same or related one by one. -/
inductive PropertyUpTo (c : Committer) (R : Json → Json → Prop) :
    String × Json → String × Json → Prop where
  | same (property : String × Json) : PropertyUpTo c R property property
  | entries {name : String} {vs vs' : List Json}
      (isPrivate : c.privacy.isPrivate name = true)
      (related : List.Forall₂ (fun v v' => v = v' ∨ R v v') vs vs') :
      PropertyUpTo c R (name, .array vs) (name, .array vs')

/-- Two objects that are the same but for entries that are related. -/
structure ObjectUpTo (c : Committer) (R : Json → Json → Prop)
    (o o' : GraphObject) : Prop where
  properties :
    Option.Rel (List.Forall₂ (c.PropertyUpTo R)) o.properties o'.properties
  others : { o with properties := o'.properties } = o'

theorem changeJson_form (form : PrivateEntry → PrivateEntry) (slot : Slot)
    (ms : Members Json) :
    changeJson (fun _ e => .ok (form e)) slot (.object ms) =
      match (PrivateEntry.ofJson? (.object ms)).map form with
      | some e => .ok e.json
      | none => .error (.malformed (.entry slot .unreadable)) := by
  unfold changeJson readEntry PrivateEntry.read
  simp only [Json.members?]
  cases PrivateEntry.ofJson? (.object ms) <;> rfl

/-- A view by a form of entries does not tell objects apart that are read as
entries of one form. -/
theorem changeJson_congr {form : PrivateEntry → PrivateEntry}
    {R : Json → Json → Prop}
    (hObject : ∀ {v v'}, R v v' → ∃ ms, v = .object ms)
    (hSymm : ∀ {v v'}, R v v' → R v' v)
    (hForm : ∀ {v v'}, R v v' → ∀ {e}, PrivateEntry.ofJson? v = some e →
      ∃ e', PrivateEntry.ofJson? v' = some e' ∧ form e' = form e) (slot : Slot)
        (v v' : Json)
    (h : R v v') :
    changeJson (fun _ e => .ok (form e)) slot v =
      changeJson (fun _ e => .ok (form e)) slot v' := by
  obtain ⟨ms, rfl⟩ := hObject h
  obtain ⟨ms', rfl⟩ := hObject (hSymm h)
  rw [changeJson_form, changeJson_form]
  cases hRead : PrivateEntry.ofJson? (.object ms) with
  | some e =>
      obtain ⟨e', hRead', hSame⟩ := hForm h hRead
      rw [hRead', Option.map_some, Option.map_some, hSame]
  | none =>
      cases hRead' : PrivateEntry.ofJson? (.object ms') with
      | none => rfl
      | some e' =>
          obtain ⟨_, hSome, _⟩ := hForm (hSymm h) hRead'
          rw [hRead] at hSome
          cases hSome

/-- What is the same for the items of two lists is the same for the lists. -/
theorem mapM_congr {α β : Type} {f : α → Except Error β} {xs ys : List α}
    (h : List.Forall₂ (fun x y => f x = f y) xs ys) :
    xs.mapM f = ys.mapM f := by
  induction h with
  | nil => rfl
  | cons hFirst _ ih => rw [List.mapM_cons, List.mapM_cons, hFirst, ih]

section Congr

variable {c : Committer}
  {change : Slot → PrivateEntry → Except Error PrivateEntry}
  {R : Json → Json → Prop}
  (hR : ∀ slot v v', R v v' →
    changeJson change slot v = changeJson change slot v')

include hR

theorem mapEntries_congr {objectId property : String} {vs vs' : List Json}
    (h : List.Forall₂ (fun v v' => v = v' ∨ R v v') vs vs') (index : Nat) :
    mapEntries change objectId property index vs =
      mapEntries change objectId property index vs' := by
  induction h generalizing index with
  | nil => rfl
  | cons hFirst _ ih =>
      rw [mapEntries_cons, mapEntries_cons, ih]
      rcases hFirst with rfl | hFirst
      · rfl
      · rw [hR _ _ _ hFirst]

theorem mapProperty_congr (objectId : String)
    {property property' : String × Json}
    (h : c.PropertyUpTo R property property') :
    c.mapProperty change objectId property =
      c.mapProperty change objectId property' := by
  cases h with
  | same => rfl
  | entries hPrivate hEntries =>
      simp only [mapProperty, if_pos hPrivate, mapEntries_congr hR hEntries]

theorem mapObject_congr {o o' : GraphObject} (h : c.ObjectUpTo R o o') :
    c.mapObject change o = c.mapObject change o' := by
  have hProperties := h.properties
  -- What the objects have in common is changed alike; only the properties are
  -- left.
  rw [← h.others]
  unfold mapObject
  generalize o'.properties = others at hProperties ⊢
  cases hGiven : o.properties with
  | none =>
      rw [hGiven] at hProperties
      cases hProperties
      show Except.ok o = Except.ok { o with properties := none }
      rw [← hGiven]
  | some properties =>
      rw [hGiven] at hProperties
      cases hProperties with
      | some hAll =>
          have hSame :=
            mapM_congr (hAll.imp fun _ _ h => mapProperty_congr hR o.id h)
          simp only [hSame]

/-- A view that does not tell related entries apart does not tell graphs apart
that are the same but for such entries. -/
theorem mapGraph_congr {graph graph' : List GraphObject}
    (h : List.Forall₂ (c.ObjectUpTo R) graph graph') :
    graph.mapM (c.mapObject change) = graph'.mapM (c.mapObject change) :=
  mapM_congr (h.imp fun _ _ h => mapObject_congr hR h)

end Congr

end Committer

/-! ## Documents that differ in secrets -/

/-- Two documents that are the same but for private entries that are related. -/
structure Document.UpTo (c : Committer) (R : Json → Json → Prop)
    (d d' : Document) : Prop where
  graph : List.Forall₂ (c.ObjectUpTo R) d.graph d'.graph
  others : { d with graph := d'.graph } = d'

namespace Publisher

variable {p : Publisher}

section PublicView

variable {d : Document} {graph : List GraphObject}
  (h : p.committer.stripGraph graph = p.committer.stripGraph d.graph)

include h

theorem strip_withGraph : p.strip { d with graph := graph } = p.strip d := by
  unfold strip
  rw [← h]

theorem distribution_withGraph :
    p.distribution { d with graph := graph } = p.distribution d := by
  unfold distribution
  rw [← h]
  rfl

theorem rootHash_withGraph :
    p.rootHash { d with graph := graph } = p.rootHash d := by
  rw [rootHash, rootHash, distribution_withGraph h]

theorem objectProof_withGraph (objectId : String) :
    p.objectProof { d with graph := graph } objectId =
      p.objectProof d objectId := by
  rw [objectProof, objectProof, distribution_withGraph h]

theorem signedBytes_withGraph :
    p.signedBytes { d with graph := graph } = p.signedBytes d := by
  rw [signedBytes, signedBytes, strip_withGraph h]

theorem signature_withGraph (key : Ecdsa.PrivateKey) :
    (p.sign { d with graph := graph } key).map (·.signature) =
      (p.sign d key).map (·.signature) := by
  -- Stated for any way of signing, so that none is evaluated.
  have hSteps :
      ∀ (bytes : Except Error Bytes) (signing : Bytes → Except Error String),
      (bytes >>= fun message => signing message >>= fun value =>
        (pure { d with
          graph := graph, signature := some ⟨value, Signature.scheme⟩ } :
          Except Error Document)).map (·.signature) =
      (bytes >>= fun message => signing message >>= fun value =>
        (pure { d with signature := some ⟨value, Signature.scheme⟩ } :
          Except Error Document)).map (·.signature) := by
    intro bytes signing
    cases bytes with
    | error e => rfl
    | ok message =>
        show (signing message >>= _).map _ = (signing message >>= _).map _
        cases signing message <;> rfl
  unfold sign
  rw [signedBytes_withGraph h]
  exact hSteps _ fun message => Message.sign message key

end PublicView

/-- Documents that differ in data and flags of private entries only have one
public view, if any; so they have one digest and one root hash, the same proofs
for their objects, and what is signed of them and the signature are the same.
Documents that differ in the data of flagged entries only are the same to a
holder. -/
theorem published_of_secrets (p : Publisher) (d d' : Document) :
    (d.UpTo p.committer PrivateEntry.SamePublic d' →
      p.strip d = p.strip d' ∧ p.publicHash d.graph = p.publicHash d'.graph ∧
      p.rootHash d = p.rootHash d' ∧
      (∀ objectId, p.objectProof d objectId = p.objectProof d' objectId) ∧
      p.signedBytes d = p.signedBytes d' ∧
      ∀ key,
        (p.sign d key).map (·.signature) = (p.sign d' key).map (·.signature)) ∧
    (d.UpTo p.committer PrivateEntry.SameHeld d' → p.hide d = p.hide d') := by
  constructor
  · intro hSame
    have hEntries :=
      Committer.changeJson_congr PrivateEntry.SamePublic.exists_object
        PrivateEntry.SamePublic.symm PrivateEntry.SamePublic.exists_stripped
    have hGraph :
        p.committer.stripGraph d'.graph = p.committer.stripGraph d.graph :=
      (Committer.mapGraph_congr hEntries hSame.graph).symm
    rw [← hSame.others]
    refine ⟨(strip_withGraph hGraph).symm, ?_, (rootHash_withGraph hGraph).symm,
      fun objectId => (objectProof_withGraph hGraph objectId).symm,
      (signedBytes_withGraph hGraph).symm,
      fun key => (signature_withGraph hGraph key).symm⟩
    rw [publicHash, publicHash, hGraph]
  · intro hSame
    have hEntries :=
      Committer.changeJson_congr PrivateEntry.SameHeld.exists_object
        PrivateEntry.SameHeld.symm PrivateEntry.SameHeld.exists_hidden
    have hGraph :
        p.committer.hideGraph d.graph = p.committer.hideGraph d'.graph :=
      Committer.mapGraph_congr hEntries hSame.graph
    rw [← hSame.others]
    unfold hide
    rw [hGraph]

/-! ## A dataset with one entry -/

/-- A dataset with a private entry of the given members. -/
def secretDocument (members : Members Json) : Document :=
  { id := some "c"
    header := some {}
    graph :=
      [(GraphObject.new "a").withProperty "private"
        (.array [.object members])] }

theorem upTo_secretDocument {R : Json → Json → Prop} {ms ms' : Members Json}
    (h : R (.object ms) (.object ms')) :
    (secretDocument ms).UpTo plainPublisher.committer R
      (secretDocument ms') := by
  have hObject : plainPublisher.committer.ObjectUpTo R
      ((GraphObject.new "a").withProperty "private" (.array [.object ms]))
      ((GraphObject.new "a").withProperty "private" (.array [.object ms'])) :=
    ⟨.some (.cons (.entries rfl (.cons (.inr h) .nil)) .nil), rfl⟩
  exact ⟨.cons hObject .nil, rfl⟩

/-- An entry with data, the same without data, and without a flag as well. -/
def fullEntry : Members Json :=
  [("data", .bool true), ("isPrivate", .bool true), ("label", .string "b")]

def emptyEntry : Members Json :=
  [("isPrivate", .bool true), ("label", .string "b")]

def bareEntry : Members Json := [("isPrivate", .null), ("label", .string "b")]

set_option maxRecDepth 100000 in
theorem published_of_secrets_entry :
    (secretDocument fullEntry).UpTo plainPublisher.committer
      PrivateEntry.SamePublic (secretDocument bareEntry) ∧
    (secretDocument fullEntry).UpTo plainPublisher.committer
      PrivateEntry.SameHeld (secretDocument emptyEntry) ∧
    ∃ view root held,
      plainPublisher.strip (secretDocument fullEntry) = .ok view ∧
      plainPublisher.strip (secretDocument bareEntry) = .ok view ∧
      plainPublisher.rootHash (secretDocument fullEntry) = .ok root ∧
      plainPublisher.rootHash (secretDocument bareEntry) = .ok root ∧
      plainPublisher.hide (secretDocument fullEntry) = .ok held ∧
      plainPublisher.hide (secretDocument emptyEntry) = .ok held := by
  have hPublic :
      (secretDocument fullEntry).UpTo plainPublisher.committer
        PrivateEntry.SamePublic
      (secretDocument bareEntry) :=
    upTo_secretDocument
      (.intro rfl (.inr ⟨.inr (.inr ⟨true, rfl⟩), .inr (.inl rfl)⟩))
  have hHeld :
      (secretDocument fullEntry).UpTo plainPublisher.committer
        PrivateEntry.SameHeld
      (secretDocument emptyEntry) :=
    upTo_secretDocument (.intro rfl rfl)
  have hView :
      (plainPublisher.strip (secretDocument fullEntry)).toOption.isSome := by
    decide +kernel
  have hRoot :
      (plainPublisher.rootHash (secretDocument fullEntry)).toOption.isSome := by
    decide +kernel
  have hHidden :
      (plainPublisher.hide (secretDocument fullEntry)).toOption.isSome := by
    decide +kernel
  obtain ⟨view, hStrip⟩ := exists_ok hView
  obtain ⟨root, hHash⟩ := exists_ok hRoot
  obtain ⟨held, hHide⟩ := exists_ok hHidden
  obtain ⟨hSameView, _, hSameRoot, _⟩ :=
    (published_of_secrets plainPublisher _ _).1 hPublic
  have hSameHeld := (published_of_secrets plainPublisher _ _).2 hHeld
  exact ⟨hPublic, hHeld, view, root, held, hStrip,
    hSameView.symm.trans hStrip, hHash, hSameRoot.symm.trans hHash, hHide,
    hSameHeld.symm.trans hHide⟩

end Publisher
end SealedGraph
