import SealedGraph.Proofs.Graph.Survival
import SealedGraph.Proofs.Json.Amendments

/-!
# What becomes of a document that is read and written

A document that was read is written as the value that it was read from, except
that defaults which were left out are added, an empty id of an object is
dropped, and a signature becomes an object with two members.

Each record has a table of rules, which names the members that may change.
Relations and the identifiers of creators have none: they never do.

## Main results

* `Header.amends_ofJson?`, `GraphObject.amends_ofJson?`: what becomes of the
  parts of a document.
* `Document.json_of_ofJson`: what becomes of a document.
-/

namespace SealedGraph

open Json

/-! ## Headers -/

namespace ValidationSchema

def rules : List (String × Rule) := [("networkId", added (.string "") id)]

theorem amends_ofJson? : Amends ofJson? json (amend rules) := by
  refine ⟨fun hNormal hRead => ?_, amend_eq_null⟩
  obtain ⟨members, rfl, ⟨hType, hNetwork, hHub⟩, hExtra⟩ :=
    ofJson?_eq_some.mp hRead
  apply ofNullKeeping_eq_amend fieldNames rfl (.refl _) (by decide) (by decide)
    (by decide) hNormal ?_ hExtra
  refine List.forall_mem_cons.mpr
    ⟨kept_required hNormal amends_string? (by decide) hType, ?_⟩
  refine List.forall_mem_cons.mpr
    ⟨kept_defaulted hNormal amends_string? (by decide) rfl rfl hNetwork, ?_⟩
  exact List.forall_mem_singleton.mpr
    (kept_optional_same hNormal amends_string? (by decide) hHub)

end ValidationSchema

namespace IntegrityProof

def rules : List (String × Rule) := [("proofValue", added (.string "") id)]

theorem amends_ofJson? : Amends ofJson? json (amend rules) := by
  refine ⟨fun hNormal hRead => ?_, amend_eq_null⟩
  obtain ⟨members, rfl, ⟨hValue, hType, hSchema⟩, hExtra⟩ :=
    ofJson?_eq_some.mp hRead
  apply ofOpen_eq_amend (fields.map (·.1)) rfl (by decide) (by decide)
    (by decide) hNormal ?_ hExtra
  refine List.forall_mem_cons.mpr
    ⟨kept_defaulted hNormal amends_string? List.not_mem_nil rfl rfl hValue, ?_⟩
  refine List.forall_mem_cons.mpr
    ⟨kept_required hNormal amends_string? List.not_mem_nil hType, ?_⟩
  exact List.forall_mem_singleton.mpr
    (kept_required hNormal amends_string? List.not_mem_nil hSchema)

end IntegrityProof

namespace Integrity

def rules : List (String × Rule) :=
  [("proofs", added (.array []) (inItems (amend IntegrityProof.rules)))]

theorem amends_ofJson? : Amends ofJson? json (amend rules) := by
  refine ⟨fun hNormal hRead => ?_, amend_eq_null⟩
  obtain ⟨members, rfl, hProofs, hExtra⟩ := ofJson?_eq_some.mp hRead
  apply ofOpen_eq_amend (fields.map (·.1)) rfl (by decide) (by decide)
    (by decide) hNormal ?_ hExtra
  have hList := amends_listOf? IntegrityProof.amends_ofJson?
  exact List.forall_mem_singleton.mpr
    (kept_defaulted hNormal hList List.not_mem_nil rfl rfl hProofs)

end Integrity

/-- An identifier of a creator is written as it was read. -/
theorem CreatorIdentifier.amends_ofJson? : Amends ofJson? json id := by
  refine ⟨fun hNormal hRead => ?_, Iff.rfl⟩
  obtain ⟨members, rfl, ⟨hValue, hType, hSchema⟩, hExtra⟩ :=
    ofJson?_eq_some.mp hRead
  rw [id, ← amend_nil hNormal]
  apply ofOpen_eq_amend (fields.map (·.1)) rfl (by decide) (by decide)
    (by decide) hNormal ?_ hExtra
  refine List.forall_mem_cons.mpr
    ⟨kept_required hNormal amends_string? List.not_mem_nil hValue, ?_⟩
  refine List.forall_mem_cons.mpr
    ⟨kept_required hNormal amends_string? List.not_mem_nil hType, ?_⟩
  exact List.forall_mem_singleton.mpr
    (kept_required hNormal amends_string? List.not_mem_nil hSchema)

namespace Creator

def rules : List (String × Rule) := [("identifiers", added (.array []) id)]

theorem amends_ofJson? : Amends ofJson? json (amend rules) := by
  refine ⟨fun hNormal hRead => ?_, amend_eq_null⟩
  obtain ⟨members, rfl, hIdentifiers, hExtra⟩ := ofJson?_eq_some.mp hRead
  apply ofOpen_eq_amend (fields.map (·.1)) rfl (by decide) (by decide)
    (by decide) hNormal ?_ hExtra
  have hList := amends_listOf? CreatorIdentifier.amends_ofJson?
  rw [inItems_id] at hList
  exact List.forall_mem_singleton.mpr
    (kept_defaulted hNormal hList List.not_mem_nil rfl rfl hIdentifiers)

end Creator

namespace Header

def rules : List (String × Rule) :=
  [("OTJSONVersion", added (.string "") id),
    ("datasetCreationTimestamp", added (.string "") id),
    ("datasetTitle", added (.string "") id),
    ("datasetDescription", added (.string "") id),
    ("datasetTags", added (.array []) id),
    ("relatedDatasets", added (.array []) id),
    ("validationSchemas", added (.object [])
      (inValues (amend ValidationSchema.rules))),
    ("dataIntegrity", added (.object []) (amend Integrity.rules)),
    ("dataCreator", added (.object []) (amend Creator.rules))]

theorem amends_ofJson? : Amends ofJson? json (amend rules) := by
  refine ⟨fun hNormal hRead => ?_, amend_eq_null⟩
  obtain ⟨members, rfl,
    ⟨hVersion, hCreated, hTitle, hDescription, hTags, hRelated, hSchemas,
      hIntegrity, hCreator, hTranspilation⟩, hExtra⟩ := ofJson?_eq_some.mp hRead
  apply ofNullKeeping_eq_amend fieldNames rfl (.refl _) (by decide) (by decide)
    (by decide) hNormal ?_ hExtra
  have hText : ∀ {name text : String}, name ∉ ["transpilationInfo"] →
      defaulted members name string? "" = some text →
      Kept fieldNames ["transpilationInfo"] members
        (added (.string "") id) (name, some (.string text)) :=
          fun hName hText =>
    kept_defaulted hNormal amends_string? hName rfl rfl hText
  have hTexts := amends_listOf? amends_string?
  rw [inItems_id] at hTexts
  have hTable := amends_tableOf? ValidationSchema.amends_ofJson?
  refine List.forall_mem_cons.mpr ⟨hText (by decide) hVersion, ?_⟩
  refine List.forall_mem_cons.mpr ⟨hText (by decide) hCreated, ?_⟩
  refine List.forall_mem_cons.mpr ⟨hText (by decide) hTitle, ?_⟩
  refine List.forall_mem_cons.mpr ⟨hText (by decide) hDescription, ?_⟩
  refine List.forall_mem_cons.mpr
    ⟨kept_defaulted hNormal hTexts (by decide) rfl rfl hTags, ?_⟩
  refine List.forall_mem_cons.mpr
    ⟨kept_defaulted hNormal amends_array? (by decide) rfl rfl hRelated, ?_⟩
  refine List.forall_mem_cons.mpr
    ⟨kept_defaulted hNormal hTable (by decide) rfl rfl hSchemas, ?_⟩
  refine List.forall_mem_cons.mpr
    ⟨kept_defaulted hNormal Integrity.amends_ofJson? (by decide)
      rfl rfl hIntegrity, ?_⟩
  refine List.forall_mem_cons.mpr
    ⟨kept_defaulted hNormal Creator.amends_ofJson? (by decide) rfl rfl hCreator,
      ?_⟩
  exact List.forall_mem_singleton.mpr
    (kept_value hNormal (by decide) hTranspilation)

end Header

/-! ## Objects -/

/-- A relation is written as it was read. -/
theorem Relation.amends_ofJson? : Amends ofJson? json id := by
  refine ⟨fun hNormal hRead => ?_, Iff.rfl⟩
  obtain ⟨members, rfl, ⟨hType, hLinked, hDirection, hProperties⟩, hExtra⟩ :=
    ofJson?_eq_some.mp hRead
  rw [id, ← amend_nil hNormal]
  apply ofNullKeeping_eq_amend fieldNames rfl (.refl _) (by decide) (by decide)
    (by decide) hNormal ?_ hExtra
  refine List.forall_mem_cons.mpr
    ⟨kept_optional_same hNormal amends_string? (by decide) hType, ?_⟩
  refine List.forall_mem_cons.mpr ⟨kept_value hNormal (by decide) hLinked, ?_⟩
  refine List.forall_mem_cons.mpr
    ⟨kept_optional_same hNormal amends_string? (by decide) hDirection, ?_⟩
  exact List.forall_mem_singleton.mpr
    (kept_value hNormal (by decide) hProperties)

namespace GraphObject

/-- Whether a value is an empty text, which stands for no id. -/
def isEmptyText : Json → Bool
  | .string text => text = ""
  | _ => false

def rules : List (String × Rule) := [("@id", dropped isEmptyText)]

/-- An empty id is dropped. -/
theorem kept_id {members : Members Json} {id : String}
    (hNormal : (Json.object members).normalize = .object members)
    (hRead : (optional members "@id" string?).map (·.getD "") = some id) :
    Kept fieldNames fieldNames members (dropped isEmptyText)
      ("@id", if id = "" then none else some (.string id)) := by
  obtain ⟨read, hOptional, hSame⟩ := Option.map_eq_some_iff.mp hRead
  cases read with
  | none =>
      cases hSame
      exact kept_none hNormal (by decide) hOptional rfl rfl
  | some text =>
      cases hSame
      obtain ⟨v, hLookup, hv, hText⟩ := exists_of_optional hOptional
      cases string_of_string? hText
      show Kept _ _ _ _ ("@id", if text = "" then none else some (.string text))
      by_cases hEmpty : text = ""
      -- Nothing is written for the empty text, and no null is parked in its
      -- place.
      · subst hEmpty
        refine ⟨(lookup_unparked hNormal (by decide) hLookup hv).trans ?_,
          fun _ => nofun⟩
        rw [hLookup]
        rfl
      · rw [if_neg hEmpty]
        have hFull : isEmptyText (.string text) = false :=
          decide_eq_false hEmpty
        constructor
        · show some (Json.string text) = (members.lookup "@id").filter fun v =>
              !isEmptyText v
          rw [hLookup, Option.filter_some, hFull]
          rfl
        · exact fun _ => nofun

theorem amends_ofJson? : Amends ofJson? json (amend rules) := by
  refine ⟨fun hNormal hRead => ?_, amend_eq_null⟩
  obtain ⟨members, rfl, ⟨hId, hType, hIdentifiers, hProperties, hRelations⟩,
    hExtra⟩ :=
    ofJson?_eq_some.mp hRead
  apply ofNullKeeping_eq_amend fieldNames rfl (.refl _) (by decide) (by decide)
    (by decide) hNormal ?_ hExtra
  have hList := amends_listOf? Relation.amends_ofJson?
  rw [inItems_id] at hList
  refine List.forall_mem_cons.mpr ⟨kept_id hNormal hId, ?_⟩
  refine List.forall_mem_cons.mpr
    ⟨kept_optional_same hNormal amends_string? (by decide) hType, ?_⟩
  refine List.forall_mem_cons.mpr
    ⟨kept_optional_same hNormal amends_array? (by decide) hIdentifiers, ?_⟩
  refine List.forall_mem_cons.mpr
    ⟨kept_optional_same hNormal amends_members? (by decide) hProperties, ?_⟩
  exact List.forall_mem_singleton.mpr
    (kept_optional_same hNormal hList (by decide) hRelations)

end GraphObject

/-! ## Signatures -/

namespace Signature

/-- A signature as an object with just its value and its type. -/
def reduced : Json → Json
  | .object members =>
      .object (members.filter fun member => member.1 ∈ ["type", "value"])
  | .array [value, type] => .object [("type", type), ("value", value)]
  | v => v

theorem reduced_eq_null {v : Json} : reduced v = .null ↔ v = .null := by
  unfold reduced
  split <;> simp

/-- Of the members of an object those of two names are left. -/
theorem filter_eq_of_lookup {members : Members Json} {value type : Json}
    (hAscending : members.Ascending)
    (hValue : members.lookup "value" = some value)
    (hType : members.lookup "type" = some type) :
    members.filter (fun member => member.1 ∈ ["type", "value"]) =
      [("type", type), ("value", value)] := by
  have hOrder : Members.Ascending [("type", type), ("value", value)] :=
    List.pairwise_pair.mpr (by decide : ("type" : String) < "value")
  apply Members.eq_of_mem_iff (Members.ascending_filter _ hAscending) hOrder
  rintro ⟨name, v⟩
  rw [List.mem_filter, ← Members.lookup_eq_some_iff hAscending]
  simp only [List.mem_cons, List.not_mem_nil, or_false, decide_eq_true_eq,
    Prod.mk.injEq]
  constructor
  · rintro ⟨hLookup, rfl | rfl⟩
    · rw [hType] at hLookup
      exact .inl ⟨rfl, (Option.some.inj hLookup).symm⟩
    · rw [hValue] at hLookup
      exact .inr ⟨rfl, (Option.some.inj hLookup).symm⟩
  · rintro (⟨rfl, rfl⟩ | ⟨rfl, rfl⟩)
    · exact ⟨hType, .inl rfl⟩
    · exact ⟨hValue, .inr rfl⟩

/-- An array that is read as a signature has two items. -/
theorem items_of_closed? {items : List Json} {members : Members Json}
    {value type : Json}
    (h : (Json.array items).closed? (fields.map (·.1)) = some members)
    (hValue : members.lookup "value" = some value)
    (hType : members.lookup "type" = some type) :
    items = [value, type] := by
  obtain ⟨hLength, hZip⟩ := Option.ite_none_right_eq_some.mp h
  cases hZip
  match items with
  | [] => cases hValue
  | [_] => cases hType
  | [first, second] =>
      cases hValue
      cases hType
      rfl
  | _ :: _ :: _ :: _ => exact absurd hLength (by simp [fields])

theorem amends_ofJson? : Amends ofJson? json reduced := by
  refine ⟨fun {v s} hNormal hRead => ?_, reduced_eq_null⟩
  simp only [ofJson?, Option.bind_eq_bind, Option.bind_eq_some_iff] at hRead
  obtain ⟨members, hMembers, value, hValue, type, hType, hs⟩ := hRead
  cases hs
  rw [json_eq]
  obtain ⟨given, hGiven, hValue⟩ := Option.bind_eq_some_iff.mp hValue
  obtain ⟨givenType, hGivenType, hType⟩ := Option.bind_eq_some_iff.mp hType
  cases string_of_string? hValue
  cases string_of_string? hType
  cases v with
  | object ms =>
      cases hMembers
      apply congrArg object
      exact (filter_eq_of_lookup (normalize_object_eq_self.mp hNormal).1 hGiven
        hGivenType).symm
  | array items =>
      rw [items_of_closed? hMembers hGiven hGivenType]
      rfl
  | _ => cases hMembers

end Signature

/-! ## Documents -/

namespace Document

def rules : List (String × Rule) :=
  [("datasetHeader", changed (amend Header.rules)),
    ("@graph", added (.array []) (inItems (amend GraphObject.rules))),
    ("signature", changed Signature.reduced)]

theorem amends_ofNormal? : Amends ofNormal? json (amend rules) := by
  refine ⟨fun hNormal hRead => ?_, amend_eq_null⟩
  obtain ⟨members, rfl, ⟨hId, hType, hHeader, hGraph, hSignature⟩, hExtra⟩ :=
    ofNormal?_eq_some.mp hRead
  apply ofNullKeeping_eq_amend order rfl (by decide) (by decide) (by decide)
    (by decide) hNormal ?_ hExtra
  have hList := amends_listOf? GraphObject.amends_ofJson?
  refine List.forall_mem_cons.mpr
    ⟨kept_optional_same hNormal amends_string? (by decide) hId, ?_⟩
  refine List.forall_mem_cons.mpr
    ⟨kept_optional_same hNormal amends_string? (by decide) hType, ?_⟩
  refine List.forall_mem_cons.mpr
    ⟨kept_optional hNormal Header.amends_ofJson? (by decide) hHeader, ?_⟩
  refine List.forall_mem_cons.mpr
    ⟨kept_defaulted hNormal hList (by decide) rfl rfl hGraph, ?_⟩
  exact List.forall_mem_singleton.mpr
    (kept_optional hNormal Signature.amends_ofJson? (by decide) hSignature)

/-- A document that was read of a value is read of what it is written as, and
that is the value amended by the rules. -/
theorem json_of_ofJson {v : Json} {d : Document} (hRead : ofJson v = .ok d) :
    ofJson d.json = .ok d ∧ d.json = amend rules v.normalize := by
  have hSurvives := survives_of_ofJson hRead
  constructor
  · rw [ofJson_eq_ok, hSurvives.tidy.normal]
    exact hSurvives.read_write
  · exact amends_ofNormal?.write_eq (normalize_normalize v)
      (ofJson_eq_ok.mp hRead)

/-- A document that leaves out defaults at each level, with nulls, an empty id
and other members. -/
def looseValue : Json :=
  .object
    [("signature", .array [.string "0x", .string "none"]), ("@id", .null),
      ("datasetHeader", .object
        [("note", .null),
          ("dataCreator", .object [("name", .string "a")]),
          ("dataIntegrity", .object
            [("proofs", .array [.object
              [("proofType", .string "b"),
                ("validationSchema", .string "c")]])]),
          ("validationSchemas", .object
            [("d", .object
              [("hubContractAddress", .null), ("schemaType", .string "e")])])]),
      ("@graph", .array
        [.object [("@id", .string ""), ("relations", .null)],
          .object [("@id", .null)]])]

/-- What it is written as. -/
def amendedValue : Json :=
  .object
    [("@graph",
        .array [.object [("relations", .null)], .object [("@id", .null)]]),
      ("@id", .null),
      ("datasetHeader", .object
        [("OTJSONVersion", .string ""),
          ("dataCreator", .object
            [("identifiers", .array []), ("name", .string "a")]),
          ("dataIntegrity", .object
            [("proofs", .array [.object
              [("proofType", .string "b"), ("proofValue", .string ""),
                ("validationSchema", .string "c")]])]),
          ("datasetCreationTimestamp", .string ""),
          ("datasetDescription", .string ""), ("datasetTags", .array []),
          ("datasetTitle", .string ""), ("note", .null),
          ("relatedDatasets", .array []),
          ("validationSchemas", .object
            [("d", .object
              [("hubContractAddress", .null), ("networkId", .string ""),
                ("schemaType", .string "e")])])]),
      ("signature", .object
        [("type", .string "none"), ("value", .string "0x")])]

theorem json_of_ofJson_loose :
    ∃ d, ofJson looseValue = .ok d ∧ d.json = amendedValue ∧
    ofJson amendedValue = .ok d := by
  have hSome : (ofJson looseValue).toOption.isSome := by decide +kernel
  have hAmended : amend rules looseValue.normalize = amendedValue := by rfl
  obtain ⟨d, hRead⟩ := exists_ok hSome
  obtain ⟨hAgain, hJson⟩ := json_of_ofJson hRead
  rw [hAmended] at hJson
  exact ⟨d, hRead, hJson, hJson ▸ hAgain⟩

end Document
end SealedGraph
