import SealedGraph.Graph.Header
import SealedGraph.Proofs.Json.Records

/-!
# Headers that are written again

A header that was read from a tidy value is written as a tidy value, defaults
included, and read as the same header again.  So are the records in it.

## Main results

* `Header.faithful_ofJson?`: a header survives writing and reading.
-/

namespace SealedGraph

open Json

/-! ## Schemas -/

namespace ValidationSchema

theorem ofJson?_eq_some {v : Json} {s : ValidationSchema} :
    ofJson? v = some s ↔ ∃ members, v = .object members ∧
      (required members "schemaType" string? = some s.schemaType ∧
        defaulted members "networkId" string? "" = some s.networkId ∧
        optional members "hubContractAddress" string? =
          some s.hubContractAddress) ∧
      othersAndNulls fieldNames ["hubContractAddress"] members = s.extra := by
  simp only [ofJson?, Option.bind_eq_bind, Option.bind_eq_some_iff]
  constructor
  · rintro ⟨members, hMembers, _, hType, _, hNetwork, _, hHub, hs⟩
    cases hs
    exact ⟨members, (object_of_members? hMembers).symm,
      ⟨hType, hNetwork, hHub⟩, rfl⟩
  · rintro ⟨members, rfl, ⟨hType, hNetwork, hHub⟩, hExtra⟩
    exact ⟨members, rfl, _, hType, _, hNetwork, _, hHub, by rw [hExtra]⟩

theorem faithful_ofJson? : Faithful ofJson? json 0 := by
  intro room v s _ hTidy hRead
  obtain ⟨members, rfl, ⟨hType, hNetwork, hHub⟩, hExtra⟩ :=
    ofJson?_eq_some.mp hRead
  obtain ⟨inner, rfl⟩ := hTidy.exists_room_object
  have hValues := (tidy_object.mp hTidy).2
  have hRoom := Nat.zero_le inner
  have hFields :=
    (required_field ["hubContractAddress"] faithful_string? hRoom (by decide)
      hValues hType).and <|
    (defaulted_field _ faithful_string? hRoom (by decide) hValues (.string _ _)
      rfl hNetwork).and <|
    (optional_field _ faithful_string? hRoom hValues hHub).alone
  obtain ⟨hWritten, hAgain⟩ :=
    rewritten_record fieldNames rfl (by decide)
      (fun _ h => h) hTidy hFields hExtra
  exact ⟨hWritten, ofJson?_eq_some.mpr ⟨_, rfl, hAgain⟩,
    fun _ => Json.noConfusion⟩

end ValidationSchema

/-! ## Proofs of integrity -/

namespace IntegrityProof

theorem ofJson?_eq_some {v : Json} {p : IntegrityProof} :
    ofJson? v = some p ↔ ∃ members, v = .object members ∧
      (defaulted members "proofValue" string? "" = some p.value ∧
        required members "proofType" string? = some p.type ∧
        required members "validationSchema" string? = some p.schema) ∧
      others (fields.map (·.1)) members = p.extra := by
  simp only [ofJson?, Option.bind_eq_bind, Option.bind_eq_some_iff]
  constructor
  · rintro ⟨members, hMembers, _, hValue, _, hType, _, hSchema, hp⟩
    cases hp
    exact ⟨members, (object_of_members? hMembers).symm,
      ⟨hValue, hType, hSchema⟩, rfl⟩
  · rintro ⟨members, rfl, ⟨hValue, hType, hSchema⟩, hExtra⟩
    exact ⟨members, rfl, _, hValue, _, hType, _, hSchema, by rw [hExtra]⟩

theorem faithful_ofJson? : Faithful ofJson? json 0 := by
  intro room v p _ hTidy hRead
  obtain ⟨members, rfl, ⟨hValue, hType, hSchema⟩, hExtra⟩ :=
    ofJson?_eq_some.mp hRead
  obtain ⟨inner, rfl⟩ := hTidy.exists_room_object
  have hValues := (tidy_object.mp hTidy).2
  have hRoom := Nat.zero_le inner
  have hFields :=
    (defaulted_field [] faithful_string? hRoom List.not_mem_nil hValues
      (.string _ _) rfl
      hValue).and <|
    (required_field [] faithful_string? hRoom List.not_mem_nil hValues
      hType).and <|
    (required_field [] faithful_string? hRoom List.not_mem_nil hValues
      hSchema).alone
  obtain ⟨hWritten, hAgain⟩ :=
    rewritten_open (fields.map (·.1)) rfl (by decide) hTidy hFields hExtra
  exact ⟨hWritten, ofJson?_eq_some.mpr ⟨_, rfl, hAgain⟩,
    fun _ => Json.noConfusion⟩

end IntegrityProof

namespace Integrity

theorem ofJson?_eq_some {v : Json} {i : Integrity} :
    ofJson? v = some i ↔ ∃ members, v = .object members ∧
      defaulted members "proofs" (listOf? IntegrityProof.ofJson?) [] =
        some i.proofs ∧
      others (fields.map (·.1)) members = i.extra := by
  simp only [ofJson?, Option.bind_eq_bind, Option.bind_eq_some_iff]
  constructor
  · rintro ⟨members, hMembers, _, hProofs, hi⟩
    cases hi
    exact ⟨members, (object_of_members? hMembers).symm, hProofs, rfl⟩
  · rintro ⟨members, rfl, hProofs, hExtra⟩
    exact ⟨members, rfl, _, hProofs, by rw [hExtra]⟩

theorem faithful_ofJson? : Faithful ofJson? json 2 := by
  intro room v i hRoom hTidy hRead
  obtain ⟨members, rfl, hProofs, hExtra⟩ := ofJson?_eq_some.mp hRead
  obtain ⟨inner, rfl⟩ := hTidy.exists_room_object
  have hInner := Nat.le_of_succ_le_succ hRoom
  have hFields :=
    (list_field [] IntegrityProof.faithful_ofJson? hInner List.not_mem_nil
      (tidy_object.mp hTidy).2 hProofs).alone
  obtain ⟨hWritten, hAgain⟩ :=
    rewritten_open (fields.map (·.1)) rfl (by decide) hTidy hFields hExtra
  exact ⟨hWritten, ofJson?_eq_some.mpr ⟨_, rfl, hAgain⟩,
    fun _ => Json.noConfusion⟩

end Integrity

/-! ## Creators -/

namespace CreatorIdentifier

theorem ofJson?_eq_some {v : Json} {i : CreatorIdentifier} :
    ofJson? v = some i ↔ ∃ members, v = .object members ∧
      (required members "identifierValue" string? = some i.value ∧
        required members "identifierType" string? = some i.type ∧
        required members "validationSchema" string? = some i.schema) ∧
      others (fields.map (·.1)) members = i.extra := by
  simp only [ofJson?, Option.bind_eq_bind, Option.bind_eq_some_iff]
  constructor
  · rintro ⟨members, hMembers, _, hValue, _, hType, _, hSchema, hi⟩
    cases hi
    exact ⟨members, (object_of_members? hMembers).symm,
      ⟨hValue, hType, hSchema⟩, rfl⟩
  · rintro ⟨members, rfl, ⟨hValue, hType, hSchema⟩, hExtra⟩
    exact ⟨members, rfl, _, hValue, _, hType, _, hSchema, by rw [hExtra]⟩

theorem faithful_ofJson? : Faithful ofJson? json 0 := by
  intro room v i _ hTidy hRead
  obtain ⟨members, rfl, ⟨hValue, hType, hSchema⟩, hExtra⟩ :=
    ofJson?_eq_some.mp hRead
  obtain ⟨inner, rfl⟩ := hTidy.exists_room_object
  have hValues := (tidy_object.mp hTidy).2
  have hRoom := Nat.zero_le inner
  have hFields :=
    (required_field [] faithful_string? hRoom List.not_mem_nil hValues
      hValue).and <|
    (required_field [] faithful_string? hRoom List.not_mem_nil hValues
      hType).and <|
    (required_field [] faithful_string? hRoom List.not_mem_nil hValues
      hSchema).alone
  obtain ⟨hWritten, hAgain⟩ :=
    rewritten_open (fields.map (·.1)) rfl (by decide) hTidy hFields hExtra
  exact ⟨hWritten, ofJson?_eq_some.mpr ⟨_, rfl, hAgain⟩,
    fun _ => Json.noConfusion⟩

end CreatorIdentifier

namespace Creator

theorem ofJson?_eq_some {v : Json} {c : Creator} :
    ofJson? v = some c ↔ ∃ members, v = .object members ∧
      defaulted members "identifiers" (listOf? CreatorIdentifier.ofJson?) [] =
        some c.identifiers ∧
      others (fields.map (·.1)) members = c.extra := by
  simp only [ofJson?, Option.bind_eq_bind, Option.bind_eq_some_iff]
  constructor
  · rintro ⟨members, hMembers, _, hIdentifiers, hc⟩
    cases hc
    exact ⟨members, (object_of_members? hMembers).symm, hIdentifiers, rfl⟩
  · rintro ⟨members, rfl, hIdentifiers, hExtra⟩
    exact ⟨members, rfl, _, hIdentifiers, by rw [hExtra]⟩

theorem faithful_ofJson? : Faithful ofJson? json 2 := by
  intro room v c hRoom hTidy hRead
  obtain ⟨members, rfl, hIdentifiers, hExtra⟩ := ofJson?_eq_some.mp hRead
  obtain ⟨inner, rfl⟩ := hTidy.exists_room_object
  have hInner := Nat.le_of_succ_le_succ hRoom
  have hFields :=
    (list_field [] CreatorIdentifier.faithful_ofJson? hInner List.not_mem_nil
      (tidy_object.mp hTidy).2 hIdentifiers).alone
  obtain ⟨hWritten, hAgain⟩ :=
    rewritten_open (fields.map (·.1)) rfl (by decide) hTidy hFields hExtra
  exact ⟨hWritten, ofJson?_eq_some.mpr ⟨_, rfl, hAgain⟩,
    fun _ => Json.noConfusion⟩

end Creator

/-! ## Headers -/

namespace Header

theorem ofJson?_eq_some {v : Json} {h : Header} :
    ofJson? v = some h ↔ ∃ members, v = .object members ∧
      (defaulted members "OTJSONVersion" string? "" = some h.version ∧
        defaulted members "datasetCreationTimestamp" string? "" =
          some h.created ∧
        defaulted members "datasetTitle" string? "" = some h.title ∧
        defaulted members "datasetDescription" string? "" = some h.description ∧
        defaulted members "datasetTags" (listOf? string?) [] = some h.tags ∧
        defaulted members "relatedDatasets" array? [] = some h.related ∧
        defaulted members "validationSchemas"
          (tableOf? ValidationSchema.ofJson?) [] =
            some h.schemas ∧
        defaulted members "dataIntegrity" Integrity.ofJson? {} =
          some h.integrity ∧
        defaulted members "dataCreator" Creator.ofJson? {} = some h.creator ∧
        optional members "transpilationInfo" some = some h.transpilation) ∧
      othersAndNulls fieldNames ["transpilationInfo"] members = h.extra := by
  simp only [ofJson?, Option.bind_eq_bind, Option.bind_eq_some_iff]
  constructor
  · rintro ⟨members, hMembers, _, hVersion, _, hCreated, _, hTitle, _,
      hDescription, _, hTags, _, hRelated, _, hSchemas, _, hIntegrity, _,
      hCreator, _, hTranspilation, h⟩
    cases h
    exact ⟨members, (object_of_members? hMembers).symm,
      ⟨hVersion, hCreated, hTitle, hDescription,
        hTags, hRelated, hSchemas, hIntegrity, hCreator, hTranspilation⟩, rfl⟩
  · rintro ⟨members, rfl,
      ⟨hVersion, hCreated, hTitle, hDescription, hTags, hRelated, hSchemas,
        hIntegrity, hCreator, hTranspilation⟩, hExtra⟩
    exact ⟨members, rfl, _, hVersion, _, hCreated, _, hTitle, _, hDescription,
      _, hTags, _, hRelated, _, hSchemas, _, hIntegrity, _, hCreator, _,
      hTranspilation, by rw [hExtra]⟩

theorem tidy_integrity {room : Nat} (hRoom : 2 ≤ room) :
    Tidy room (Integrity.json {}) :=
  Tidy.mono ⟨rfl, Nat.le_refl 2⟩ hRoom

theorem tidy_creator {room : Nat} (hRoom : 2 ≤ room) :
    Tidy room (Creator.json {}) :=
  Tidy.mono ⟨rfl, Nat.le_refl 2⟩ hRoom

theorem faithful_ofJson? : Faithful ofJson? json 3 := by
  intro room v h hRoom hTidy hRead
  obtain ⟨members, rfl,
    ⟨hVersion, hCreated, hTitle, hDescription, hTags, hRelated, hSchemas,
      hIntegrity, hCreator, hTranspilation⟩, hExtra⟩ := ofJson?_eq_some.mp hRead
  obtain ⟨inner, rfl⟩ := hTidy.exists_room_object
  have hInner : 2 ≤ inner := Nat.le_of_succ_le_succ hRoom
  have hOne : 1 ≤ inner := Nat.le_of_succ_le hInner
  have hValues := (tidy_object.mp hTidy).2
  have hText : ∀ {name text : String}, name ∉ ["transpilationInfo"] →
      defaulted members name string? "" = some text →
      Field ["transpilationInfo"] inner members
        (fun ms => defaulted ms name string? "") (name, some (.string text))
          text := fun hName =>
    defaulted_field _ faithful_string? (Nat.zero_le inner) hName hValues
      (.string _ _) rfl
  have hFields :=
    (hText (by decide) hVersion).and <|
    (hText (by decide) hCreated).and <|
    (hText (by decide) hTitle).and <|
    (hText (by decide) hDescription).and <|
    (list_field _ faithful_string? hOne (by decide) hValues hTags).and <|
    (defaulted_field _ faithful_array? (Nat.zero_le inner) (by decide) hValues
      (tidy_nil hOne) rfl hRelated).and <|
    (table_field _ ValidationSchema.faithful_ofJson? hOne (by decide)
      hValues hSchemas).and <|
    (defaulted_field _ Integrity.faithful_ofJson? hInner (by decide) hValues
      (tidy_integrity hInner) rfl hIntegrity).and <|
    (defaulted_field _ Creator.faithful_ofJson? hInner (by decide) hValues
      (tidy_creator hInner) rfl hCreator).and <|
    (value_field _ hValues hTranspilation).alone
  obtain ⟨hWritten, hAgain⟩ :=
    rewritten_record fieldNames rfl (by decide)
      (fun _ h => h) hTidy hFields hExtra
  exact ⟨hWritten, ofJson?_eq_some.mpr ⟨_, rfl, hAgain⟩,
    fun _ => Json.noConfusion⟩

end Header
end SealedGraph
