import SealedGraph.Graph.Document
import SealedGraph.Proofs.Graph.HeaderRewriting

/-!
# Documents that are written again

A document that was read is written as a tidy value and read as the same
document again.  A document that was given another signature since then is
read with that signature; a null that was parked in its place is gone.

## Main results

* `GraphObject.faithful_ofJson?`, `Document.faithful_ofNormal?`: objects and
  documents survive.
* `Document.ofNormal?_withSignature`: what is read of a document with another
  signature.
* `Document.signature_mem_extra`: when a null is parked in the place of the
  signature.
-/

namespace SealedGraph

open Json

/-! ## Relations -/

namespace Relation

theorem ofJson?_eq_some {v : Json} {r : Relation} :
    ofJson? v = some r ↔ ∃ members, v = .object members ∧
      (optional members "@type" string? = some r.type ∧
        optional members "linkedObject" some = some r.linkedObject ∧
        optional members "direction" string? = some r.direction ∧
        optional members "properties" some = some r.properties) ∧
      othersAndNulls fieldNames fieldNames members = r.extra := by
  simp only [ofJson?, Option.bind_eq_bind, Option.bind_eq_some_iff]
  constructor
  · rintro ⟨members, hMembers, _, hType, _, hLinked, _, hDirection, _,
      hProperties, hr⟩
    cases hr
    exact ⟨members, (object_of_members? hMembers).symm,
      ⟨hType, hLinked, hDirection, hProperties⟩, rfl⟩
  · rintro ⟨members, rfl, ⟨hType, hLinked, hDirection, hProperties⟩, hExtra⟩
    exact ⟨members, rfl, _, hType, _, hLinked, _, hDirection, _, hProperties,
      by rw [hExtra]⟩

/-- The fields of a relation that was read, each read again from whatever tells
of it. -/
structure FieldsOf (r : Relation) (members : Members Json) (room : Nat) :
    Prop where
  type : Field fieldNames room members (fun ms => optional ms "@type" string?)
    ("@type", r.type.map .string) r.type
  linkedObject :
    Field fieldNames room members (fun ms => optional ms "linkedObject" some)
      ("linkedObject", r.linkedObject) r.linkedObject
  direction :
    Field fieldNames room members (fun ms => optional ms "direction" string?)
      ("direction", r.direction.map .string) r.direction
  properties :
    Field fieldNames room members (fun ms => optional ms "properties" some)
      ("properties", r.properties) r.properties

theorem exists_fieldsOf {v : Json} {r : Relation} {room : Nat}
    (hTidy : Tidy room v) (hRead : ofJson? v = some r) :
    ∃ members inner, v = .object members ∧ room = inner + 1 ∧
      FieldsOf r members inner ∧
      othersAndNulls fieldNames fieldNames members = r.extra := by
  obtain ⟨members, rfl, ⟨hType, hLinked, hDirection, hProperties⟩, hExtra⟩ :=
    ofJson?_eq_some.mp hRead
  obtain ⟨inner, rfl⟩ := hTidy.exists_room_object
  have hValues := (tidy_object.mp hTidy).2
  have hRoom := Nat.zero_le inner
  refine ⟨members, inner, rfl, rfl, ?_, hExtra⟩
  constructor
  · exact optional_field _ faithful_string? hRoom hValues hType
  · exact value_field _ hValues hLinked
  · exact optional_field _ faithful_string? hRoom hValues hDirection
  · exact value_field _ hValues hProperties

theorem faithful_ofJson? : Faithful ofJson? json 0 := by
  intro room v r _ hTidy hRead
  obtain ⟨members, inner, rfl, rfl, h, hExtra⟩ := exists_fieldsOf hTidy hRead
  have hFields :=
    h.type.and <| h.linkedObject.and <| h.direction.and <| h.properties.alone
  obtain ⟨hWritten, hAgain⟩ :=
    rewritten_record fieldNames rfl (by decide)
      (fun _ h => h) hTidy hFields hExtra
  exact ⟨hWritten, ofJson?_eq_some.mpr ⟨_, rfl, hAgain⟩,
    fun _ => Json.noConfusion⟩

end Relation

/-! ## Objects -/

namespace GraphObject

/-- The fields under which an object is written. -/
def fields (o : GraphObject) : List (String × Option Json) :=
  [("@id", if o.id = "" then none else some (.string o.id)),
    ("@type", o.type.map .string), ("identifiers", o.identifiers.map .array),
    ("properties", o.properties.map .object),
    ("relations", o.relations.map fun relations =>
      .array (relations.map Relation.json))]

theorem ofJson?_eq_some {v : Json} {o : GraphObject} :
    ofJson? v = some o ↔ ∃ members, v = .object members ∧
      ((optional members "@id" string?).map (·.getD "") = some o.id ∧
        optional members "@type" string? = some o.type ∧
        optional members "identifiers" array? = some o.identifiers ∧
        optional members "properties" members? = some o.properties ∧
        optional members "relations" (listOf? Relation.ofJson?) =
          some o.relations) ∧
      othersAndNulls fieldNames fieldNames members = o.extra := by
  simp only [ofJson?, Option.bind_eq_bind, Option.bind_eq_some_iff]
  constructor
  · rintro ⟨members, hMembers, _, hId, _, hType, _, hIdentifiers, _,
      hProperties, _, hRelations, ho⟩
    cases ho
    exact ⟨members, (object_of_members? hMembers).symm,
      ⟨by rw [hId]; rfl, hType, hIdentifiers, hProperties, hRelations⟩, rfl⟩
  · rintro ⟨members, rfl, ⟨hId, hType, hIdentifiers, hProperties, hRelations⟩,
      hExtra⟩
    obtain ⟨id, hId, hSame⟩ := Option.map_eq_some_iff.mp hId
    exact ⟨members, rfl, id, hId, _, hType, _, hIdentifiers, _, hProperties, _,
      hRelations, by rw [hExtra, hSame]⟩

theorem id_of_tells {written : Members Json} {id : String}
    (h : Tells written ("@id", if id = "" then none else some (.string id))) :
    (optional written "@id" string?).map (·.getD "") = some id := by
  by_cases hEmpty : id = ""
  · rw [if_pos hEmpty] at h
    rw [optional_eq_none h, hEmpty]
    rfl
  · rw [if_neg hEmpty] at h
    have hRead : optional written "@id" string? = some (some id) :=
      optional_eq_some h Json.noConfusion rfl
    rw [hRead]
    rfl

/-- An empty id is not written; it stands for none. -/
theorem id_field {members : Members Json} {room : Nat} {id : String}
    (hMembers : ∀ member ∈ members, Tidy room member.2)
    (hRead : (optional members "@id" string?).map (·.getD "") = some id) :
    Field fieldNames room members
      (fun ms => (optional ms "@id" string?).map (·.getD ""))
      ("@id", if id = "" then none else some (.string id)) id := by
  obtain ⟨read, hOptional, hSame⟩ := Option.map_eq_some_iff.mp hRead
  have hField :=
    optional_field fieldNames faithful_string? (Nat.zero_le room)
      hMembers hOptional
  refine ⟨?_, id_of_tells⟩
  by_cases hEmpty : id = ""
  · rw [if_pos hEmpty]
    exact ⟨fit_none fieldNames, fun _ h => absurd rfl h⟩
  · rw [if_neg hEmpty]
    cases read with
    | none => exact absurd hSame.symm hEmpty
    | some text =>
        cases hSame
        exact hField.toHeld

/-- The fields of an object that was read, each read again from whatever tells
of it. -/
structure FieldsOf (o : GraphObject) (members : Members Json) (room : Nat) :
    Prop where
  id : Field fieldNames room members
    (fun ms => (optional ms "@id" string?).map (·.getD ""))
    ("@id", if o.id = "" then none else some (.string o.id)) o.id
  type : Field fieldNames room members (fun ms => optional ms "@type" string?)
    ("@type", o.type.map .string) o.type
  identifiers :
    Field fieldNames room members (fun ms => optional ms "identifiers" array?)
      ("identifiers", o.identifiers.map .array) o.identifiers
  properties :
    Field fieldNames room members (fun ms => optional ms "properties" members?)
      ("properties", o.properties.map .object) o.properties
  relations : Field fieldNames room members
    (fun ms => optional ms "relations" (listOf? Relation.ofJson?))
    ("relations", o.relations.map fun relations =>
      .array (relations.map Relation.json))
    o.relations

theorem exists_fieldsOf {v : Json} {o : GraphObject} {room : Nat}
    (hRoom : 2 ≤ room) (hTidy : Tidy room v) (hRead : ofJson? v = some o) :
    ∃ members inner, v = .object members ∧ room = inner + 1 ∧ 1 ≤ inner ∧
      FieldsOf o members inner ∧
        othersAndNulls fieldNames fieldNames members = o.extra := by
  obtain ⟨members, rfl, ⟨hId, hType, hIdentifiers, hProperties, hRelations⟩,
    hExtra⟩ :=
    ofJson?_eq_some.mp hRead
  obtain ⟨inner, rfl⟩ := hTidy.exists_room_object
  have hInner := Nat.le_of_succ_le_succ hRoom
  have hValues := (tidy_object.mp hTidy).2
  refine ⟨members, inner, rfl, rfl, hInner, ?_, hExtra⟩
  constructor
  · exact id_field hValues hId
  · exact optional_field _ faithful_string? (Nat.zero_le inner) hValues hType
  · exact optional_field _ faithful_array? (Nat.zero_le inner)
      hValues hIdentifiers
  · exact optional_field _ faithful_members? (Nat.zero_le inner)
      hValues hProperties
  · exact optional_field _ (faithful_listOf? Relation.faithful_ofJson?)
      hInner hValues hRelations

theorem FieldsOf.fit {o : GraphObject} {members : Members Json} {room : Nat}
    (h : FieldsOf o members room) :
    ∀ field ∈ o.fields, Fit fieldNames room field := by
  simp only [fields, List.forall_mem_cons]
  exact ⟨h.id.toFit, h.type.toFit, h.identifiers.toFit, h.properties.toFit,
    h.relations.toFit, List.forall_mem_nil _⟩

/-- An object whose fields go with members that were given is written and read
again. -/
theorem FieldsOf.rewritten {o : GraphObject} {members : Members Json}
    {room : Nat} (h : FieldsOf o members room)
    (hTidy : Tidy (room + 1) (.object members))
    (hExtra : othersAndNulls fieldNames fieldNames members = o.extra) :
    Tidy (room + 1) o.json ∧ ofJson? o.json = some o := by
  have hFields :=
    h.id.and <| h.type.and <| h.identifiers.and <| h.properties.and <|
    h.relations.alone
  obtain ⟨hWritten, hAgain⟩ :=
    rewritten_record fieldNames rfl (by decide)
      (fun _ h => h) hTidy hFields hExtra
  exact ⟨hWritten, ofJson?_eq_some.mpr ⟨_, rfl, hAgain⟩⟩

theorem faithful_ofJson? : Faithful ofJson? json 2 := by
  intro room v o hRoom hTidy hRead
  obtain ⟨members, inner, rfl, rfl, _, h, hExtra⟩ :=
    exists_fieldsOf hRoom hTidy hRead
  obtain ⟨hWritten, hAgain⟩ := h.rewritten hTidy hExtra
  exact ⟨hWritten, hAgain, fun _ => Json.noConfusion⟩

end GraphObject

/-! ## Signatures -/

namespace Signature

theorem json_eq (s : Signature) :
    s.json =
      .object [("type", .string s.type), ("value", .string s.value)] := by
  have hOrder : ¬ ("value" : String) < "type" := by decide
  have hNe : ("value" : String) ≠ "type" := by decide
  simp only [json, ofFields, Members.ofList, List.foldr, Members.insertNew,
    if_neg hOrder, if_neg hNe]

theorem ofJson?_json (s : Signature) : ofJson? s.json = some s := by
  rw [json_eq]
  rfl

theorem tidy_json {room : Nat} (hRoom : 1 ≤ room) (s : Signature) :
    Tidy room s.json := by
  have hRecord : Tidy 1 s.json := by
    refine tidy_object.mpr ⟨Members.ascending_ofList _,
      fun member hMember => ?_⟩
    have hText := Members.mem_ofList hMember
    simp only [List.mem_cons, List.not_mem_nil, or_false] at hText
    rcases hText with rfl | rfl
    · exact .string 0 s.value
    · exact .string 0 s.type
  exact hRecord.mono hRoom

theorem faithful_ofJson? : Faithful ofJson? json 1 := by
  intro room v s hRoom _ _
  exact ⟨tidy_json hRoom s, ofJson?_json s, fun _ => Json.noConfusion⟩

end Signature

/-! ## Documents -/

namespace Document

/-- The fields under which a document is written. -/
def fields (d : Document) : List (String × Option Json) :=
  [("@id", d.id.map .string), ("@type", d.type.map .string),
    ("datasetHeader", d.header.map Header.json),
    ("@graph", some (.array (d.graph.map GraphObject.json))),
    ("signature", d.signature.map Signature.json)]

theorem ofNormal?_eq_some {v : Json} {d : Document} :
    ofNormal? v = some d ↔ ∃ members, v = .object members ∧
      (optional members "@id" string? = some d.id ∧
        optional members "@type" string? = some d.type ∧
        optional members "datasetHeader" Header.ofJson? = some d.header ∧
        defaulted members "@graph" (listOf? GraphObject.ofJson?) [] =
          some d.graph ∧
        optional members "signature" Signature.ofJson? = some d.signature) ∧
      othersAndNulls fieldNames nullable members = d.extra := by
  simp only [ofNormal?, Option.bind_eq_bind, Option.bind_eq_some_iff]
  constructor
  · rintro ⟨members, hMembers, _, hId, _, hType, _, hHeader, _, hGraph, _,
      hSignature, hd⟩
    cases hd
    exact ⟨members, (object_of_members? hMembers).symm,
      ⟨hId, hType, hHeader, hGraph, hSignature⟩, rfl⟩
  · rintro ⟨members, rfl, ⟨hId, hType, hHeader, hGraph, hSignature⟩, hExtra⟩
    exact ⟨members, rfl, _, hId, _, hType, _, hHeader, _, hGraph, _, hSignature,
      by rw [hExtra]⟩

/-- The fields of a document that was read, each read again from whatever tells
of it. -/
structure FieldsOf (d : Document) (members : Members Json) (room : Nat) :
    Prop where
  id : Field nullable room members (fun ms => optional ms "@id" string?)
    ("@id", d.id.map .string) d.id
  type : Field nullable room members (fun ms => optional ms "@type" string?)
    ("@type", d.type.map .string) d.type
  header :
    Field nullable room members
      (fun ms => optional ms "datasetHeader" Header.ofJson?)
    ("datasetHeader", d.header.map Header.json) d.header
  graph : Field nullable room members
    (fun ms => defaulted ms "@graph" (listOf? GraphObject.ofJson?) [])
    ("@graph", some (.array (d.graph.map GraphObject.json))) d.graph
  signature :
    Field nullable room members
      (fun ms => optional ms "signature" Signature.ofJson?)
    ("signature", d.signature.map Signature.json) d.signature

/-- The names of the fields in the order in which they are written. -/
def order : List String :=
  ["@id", "@type", "datasetHeader", "@graph", "signature"]

theorem exists_fieldsOf {v : Json} {d : Document} {room : Nat}
    (hRoom : 4 ≤ room) (hTidy : Tidy room v) (hRead : ofNormal? v = some d) :
    ∃ members inner, v = .object members ∧ room = inner + 1 ∧ 3 ≤ inner ∧
      FieldsOf d members inner ∧
        othersAndNulls fieldNames nullable members = d.extra := by
  obtain ⟨members, rfl, ⟨hId, hType, hHeader, hGraph, hSignature⟩, hExtra⟩ :=
    ofNormal?_eq_some.mp hRead
  obtain ⟨inner, rfl⟩ := hTidy.exists_room_object
  have hInner := Nat.le_of_succ_le_succ hRoom
  have hValues := (tidy_object.mp hTidy).2
  refine ⟨members, inner, rfl, rfl, hInner, ?_, hExtra⟩
  constructor
  · exact optional_field _ faithful_string? (Nat.zero_le inner) hValues hId
  · exact optional_field _ faithful_string? (Nat.zero_le inner) hValues hType
  · exact optional_field _ Header.faithful_ofJson? hInner hValues hHeader
  · exact list_field _ GraphObject.faithful_ofJson? hInner (by decide)
      hValues hGraph
  · exact optional_field _ Signature.faithful_ofJson? (by omega)
      hValues hSignature

/-- A document whose fields go with members that were given is written and read
again. -/
theorem FieldsOf.rewritten {d : Document} {members : Members Json} {room : Nat}
    (h : FieldsOf d members room) (hTidy : Tidy (room + 1) (.object members))
    (hExtra : othersAndNulls fieldNames nullable members = d.extra) :
    Tidy (room + 1) d.json ∧ ofNormal? d.json = some d := by
  have hFields :=
    h.id.and <| h.type.and <| h.header.and <| h.graph.and <| h.signature.alone
  obtain ⟨hWritten, hAgain⟩ :=
    rewritten_record order rfl (by decide) (by decide) hTidy hFields hExtra
  exact ⟨hWritten, ofNormal?_eq_some.mpr ⟨_, rfl, hAgain⟩⟩

theorem faithful_ofNormal? : Faithful ofNormal? json 4 := by
  intro room v d hRoom hTidy hRead
  obtain ⟨members, inner, rfl, rfl, _, h, hExtra⟩ :=
    exists_fieldsOf hRoom hTidy hRead
  obtain ⟨hWritten, hAgain⟩ := h.rewritten hTidy hExtra
  exact ⟨hWritten, hAgain, fun _ => Json.noConfusion⟩

/-- The document with a signature, which takes the place of a parked null. -/
def withSignature (d : Document) (s : Signature) : Document :=
  { d with signature := some s, extra := d.extra.filter fun member =>
    member.1 ≠ "signature" }

/-- Of the parked nulls, a signature shadows the one in its own place. -/
theorem unshadowed_withSignature {members : Members Json} {room : Nat}
    {d : Document} (hTidy : Tidy (room + 1) (.object members))
    (h : FieldsOf d members room)
    (hExtra : othersAndNulls fieldNames nullable members = d.extra)
    (s : Signature) :
    unshadowed { d with signature := some s }.fields d.extra =
      (d.withSignature s).extra := by
  have hAscending : d.extra.Ascending := by
    rw [← hExtra]
    exact Members.ascending_filter _ (tidy_object.mp hTidy).1
  have hNamed : ∀ field ∈ d.fields, field.1 ∈ fieldNames := by
    simp [fields, fieldNames, nullable]
  have hFields :=
    h.id.and <| h.type.and <| h.header.and <| h.graph.and <| h.signature.alone
  have hKept : unshadowed d.fields d.extra = d.extra := by
    rw [← hExtra]
    exact unshadowed_eq_self hNamed (tidy_object.mp hTidy).1 hFields.held
  refine Members.eq_of_mem_iff (Members.ascending_filter _ hAscending)
    (Members.ascending_filter _ hAscending) fun member => ?_
  rw [mem_unshadowed]
  show _ ↔ member ∈ d.extra.filter fun member => member.1 ≠ "signature"
  rw [List.mem_filter, decide_eq_true_eq]
  refine and_congr_right fun hMember => ?_
  constructor
  · intro hShadow hName
    rw [← hExtra] at hMember
    have hField : member.1 ∈ fieldNames := by rw [hName]; decide
    have hNull := ((mem_othersAndNulls.mp hMember).2 hField).2
    refine hShadow hNull s.json ?_
    rw [hName]
    simp [fields]
  · intro hName hNull v hField
    rw [← hKept] at hMember
    refine (mem_unshadowed.mp hMember).2 hNull v ?_
    simp only [fields, List.mem_cons, Prod.mk.injEq, hName, false_and,
      List.not_mem_nil, or_false] at hField ⊢
    exact hField

/-- A document that is signed after it was read is written with its signature
only. -/
theorem ofNormal?_withSignature {room : Nat} {v : Json} {d : Document}
    (hRoom : 4 ≤ room) (hTidy : Tidy room v) (hRead : ofNormal? v = some d)
    (s : Signature) :
    Tidy room { d with signature := some s }.json ∧
      ofNormal? { d with signature := some s }.json =
        some (d.withSignature s) := by
  obtain ⟨members, inner, rfl, rfl, hInner, h, hExtra⟩ :=
    exists_fieldsOf hRoom hTidy hRead
  have hSignature : Fit nullable inner ("signature", some s.json) :=
    fit_some _ (Signature.tidy_json (by omega) s) fun _ => Json.noConfusion
  have hFit : ∀ field ∈ { d with signature := some s }.fields,
    Fit nullable inner field :=
    List.forall_mem_cons.mpr ⟨h.id.toFit,
      List.forall_mem_cons.mpr ⟨h.type.toFit,
        List.forall_mem_cons.mpr ⟨h.header.toFit,
          List.forall_mem_cons.mpr ⟨h.graph.toFit,
            List.forall_mem_singleton.mpr hSignature⟩⟩⟩⟩
  obtain ⟨hRecorded, hWritten⟩ :=
    recorded_of_members order rfl (by decide) (by decide) hTidy hFit hExtra
  have hTells := hRecorded.tells
  simp only [fields, List.forall_mem_cons] at hTells
  obtain ⟨hId, hType, hHeader, hGraph, hTold, _⟩ := hTells
  refine ⟨hWritten,
    ofNormal?_eq_some.mpr ⟨_, rfl, ⟨h.id.again hId, h.type.again hType,
      h.header.again hHeader, h.graph.again hGraph, ?_⟩, ?_⟩⟩
  · exact optional_eq_some hTold Json.noConfusion (Signature.ofJson?_json s)
  · exact hRecorded.othersAndNulls_written.trans
      (unshadowed_withSignature hTidy h hExtra s)

/-! ## Documents as texts -/

theorem ofJson_eq_ok {v : Json} {d : Document} :
    ofJson v = .ok d ↔ ofNormal? v.normalize = some d := by
  unfold ofJson
  cases ofNormal? v.normalize <;> simp

/-- A text of a document says a tidy value, from which the document is read. -/
theorem parse_eq_ok {text : String} {d : Document} :
    parse text = .ok d ↔
      ∃ v, Json.parse? text = some v ∧ Tidy maxDepth v ∧
        ofNormal? v = some d := by
  unfold parse
  cases hText : Json.parse? text with
  | none => simp
  | some v =>
      have hTidy := tidy_of_parse? hText
      simp only [ofJson_eq_ok, hTidy.normal, Option.some.injEq, exists_eq_left',
        hTidy, true_and]

/-- A null is parked in the place of the signature if, and only if, the text
gave one. -/
theorem signature_mem_extra {text : String} {d : Document}
    (hRead : parse text = .ok d) :
    "signature" ∈ d.extra.map (·.1) ↔
      (Json.parse? text).bind (·.get? "signature") = some .null := by
  obtain ⟨v, hText, hTidy, hv⟩ := parse_eq_ok.mp hRead
  obtain ⟨members, rfl, _, hExtra⟩ := ofNormal?_eq_some.mp hv
  obtain ⟨inner, hInner⟩ := hTidy.exists_room_object
  rw [hInner] at hTidy
  have hAscending := (tidy_object.mp hTidy).1
  have hField : "signature" ∈ fieldNames := by decide
  have hNullable : "signature" ∈ nullable := by decide
  rw [hText, ← hExtra]
  show _ ↔ members.lookup "signature" = some .null
  constructor
  · intro h
    obtain ⟨⟨name, value⟩, hMember, rfl⟩ := List.mem_map.mp h
    obtain ⟨hThere, hApart⟩ := mem_othersAndNulls.mp hMember
    rw [← (hApart hField).2]
    exact Members.lookup_of_mem hAscending hThere
  · intro h
    exact List.mem_map.mpr ⟨("signature", .null),
      mem_othersAndNulls.mpr ⟨Members.mem_of_lookup h,
        fun _ => ⟨hNullable, rfl⟩⟩, rfl⟩

end Document
end SealedGraph
