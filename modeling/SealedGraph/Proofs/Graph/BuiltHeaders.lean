import SealedGraph.Dataset.Description
import SealedGraph.Proofs.Graph.Survival

/-!
# Headers that are built

A header that was put together, and not read, survives writing and reading as
well.  It has no other members, and neither have the records in it; so all of
its fields are written and read again.

## Main results

* `Header.survives_of_plain`: a header without other members survives if its
  parts do.
* `Publisher.survives_header`: so does the header of a dataset, with a root
  hash.
-/

namespace SealedGraph

open Json

/-! ## Texts and lists as fields -/

section Texts

variable (nullable : List String) (room : Nat) (name text : String)
  (hName : name ∉ nullable)

include hName

theorem Json.required_text :
    Field nullable room [] (fun ms => required ms name string?)
    (name, some (.string text)) text :=
  (survives_string text).required_field hName

theorem Json.defaulted_text :
    Field nullable room [] (fun ms => defaulted ms name string? "")
    (name, some (.string text)) text :=
  (survives_string text).defaulted_field hName

end Texts

theorem Json.defaulted_list {α : Type} {read : Json → Option α}
    {write : α → Json} {xs : List α} (nullable : List String) (room : Nat)
    (name : String) (hName : name ∉ nullable)
    (h : ∀ x ∈ xs, Survives read write room x) :
    Field nullable (room + 1) [] (fun ms => defaulted ms name (listOf? read) [])
      (name, some (.array (xs.map write))) xs :=
  (survives_list.mpr h).defaulted_field hName

/-! ## Records without other members -/

section Plain

variable {room : Nat}

theorem ValidationSchema.survives_of_plain {s : ValidationSchema}
    (hExtra : s.extra = []) :
    Survives ofJson? json (room + 1) s := by
  have hHub : Field ["hubContractAddress"] room []
      (fun ms => optional ms "hubContractAddress" string?)
      ("hubContractAddress", s.hubContractAddress.map .string)
        s.hubContractAddress :=
    field_of_survives
      (fun text _ => ⟨survives_string text, Json.noConfusion⟩) nofun
  have hFields :=
    (required_text _ room "schemaType" s.schemaType (by decide)).and <|
    (defaulted_text _ room "networkId" s.networkId (by decide)).and hHub.alone
  obtain ⟨hTidy, hAgain⟩ :=
    rewritten_record fieldNames rfl (by decide) (fun _ h => h)
      (tidy_blank (Nat.succ_pos room)) hFields hExtra.symm
  exact ⟨hTidy, ofJson?_eq_some.mpr ⟨_, rfl, hAgain⟩⟩

theorem IntegrityProof.survives_of_plain {p : IntegrityProof}
    (hExtra : p.extra = []) :
    Survives ofJson? json (room + 1) p := by
  have hFields :=
    (defaulted_text [] room "proofValue" p.value List.not_mem_nil).and <|
    (required_text [] room "proofType" p.type List.not_mem_nil).and <|
    (required_text [] room "validationSchema" p.schema List.not_mem_nil).alone
  obtain ⟨hTidy, hAgain⟩ := rewritten_open (fields.map (·.1)) rfl (by decide)
    (tidy_blank (Nat.succ_pos room)) hFields hExtra.symm
  exact ⟨hTidy, ofJson?_eq_some.mpr ⟨_, rfl, hAgain⟩⟩

theorem Integrity.survives_of_plain {i : Integrity} (hExtra : i.extra = [])
    (hProofs : ∀ proof ∈ i.proofs, proof.extra = []) :
    Survives ofJson? json (room + 3) i := by
  have hField := defaulted_list [] (room + 1) "proofs" List.not_mem_nil
    fun proof hMem =>
    IntegrityProof.survives_of_plain (hProofs proof hMem)
  obtain ⟨hTidy, hAgain⟩ := rewritten_open (fields.map (·.1)) rfl (by decide)
    (tidy_blank (Nat.succ_pos _)) hField.alone hExtra.symm
  exact ⟨hTidy, ofJson?_eq_some.mpr ⟨_, rfl, hAgain⟩⟩

theorem CreatorIdentifier.survives_of_plain {i : CreatorIdentifier}
    (hExtra : i.extra = []) :
    Survives ofJson? json (room + 1) i := by
  have hFields :=
    (required_text [] room "identifierValue" i.value List.not_mem_nil).and <|
    (required_text [] room "identifierType" i.type List.not_mem_nil).and <|
    (required_text [] room "validationSchema" i.schema List.not_mem_nil).alone
  obtain ⟨hTidy, hAgain⟩ := rewritten_open (fields.map (·.1)) rfl (by decide)
    (tidy_blank (Nat.succ_pos room)) hFields hExtra.symm
  exact ⟨hTidy, ofJson?_eq_some.mpr ⟨_, rfl, hAgain⟩⟩

theorem Creator.survives_of_plain {c : Creator} (hExtra : c.extra = [])
    (hIdentifiers : ∀ identifier ∈ c.identifiers, identifier.extra = []) :
    Survives ofJson? json (room + 3) c := by
  have hField := defaulted_list [] (room + 1) "identifiers" List.not_mem_nil
    fun identifier hMem =>
    CreatorIdentifier.survives_of_plain (hIdentifiers identifier hMem)
  obtain ⟨hTidy, hAgain⟩ := rewritten_open (fields.map (·.1)) rfl (by decide)
    (tidy_blank (Nat.succ_pos _)) hField.alone hExtra.symm
  exact ⟨hTidy, ofJson?_eq_some.mpr ⟨_, rfl, hAgain⟩⟩

/-! ## Headers -/

/-- Neither a header nor any record in it has other members, and what is not of
this library in it is tidy. -/
structure Header.Plain (h : Header) (room : Nat) : Prop where
  extra : h.extra = []
  related : ∀ v ∈ h.related, Tidy (room + 2) v
  ascending : h.schemas.Ascending
  schemas : ∀ schema ∈ h.schemas, schema.2.extra = []
  integrity : h.integrity.extra = []
  proofs : ∀ proof ∈ h.integrity.proofs, proof.extra = []
  creator : h.creator.extra = []
  identifiers : ∀ identifier ∈ h.creator.identifiers, identifier.extra = []
  transpilation : ∀ v, h.transpilation = some v → Tidy (room + 3) v ∧ v ≠ .null

/-- A header that is plain survives. -/
theorem Header.survives_of_plain {h : Header} (hPlain : h.Plain room) :
    Survives ofJson? json (room + 4) h := by
  have hTags : Field ["transpilationInfo"] (room + 3) []
      (fun ms => defaulted ms "datasetTags" (listOf? string?) [])
      ("datasetTags", some (.array (h.tags.map .string))) h.tags :=
    defaulted_list _ _ "datasetTags" (by decide) fun text _ =>
      survives_string text
  have hRelated : Field ["transpilationInfo"] (room + 3) []
      (fun ms => defaulted ms "relatedDatasets" array? [])
      ("relatedDatasets", some (.array h.related)) h.related :=
    Survives.defaulted_field ⟨tidy_array.mpr hPlain.related, rfl⟩ (by decide)
  have hSchemas : Field ["transpilationInfo"] (room + 3) []
      (fun ms =>
        defaulted ms "validationSchemas" (tableOf? ValidationSchema.ofJson?) [])
      ("validationSchemas",
        some (.object (h.schemas.map fun s => (s.1, s.2.json)))) h.schemas :=
    (survives_table hPlain.ascending fun schema hMem =>
      ValidationSchema.survives_of_plain
        (hPlain.schemas schema hMem)).defaulted_field (by decide)
  have hIntegrity : Field ["transpilationInfo"] (room + 3) []
      (fun ms => defaulted ms "dataIntegrity" Integrity.ofJson? {})
      ("dataIntegrity", some h.integrity.json) h.integrity :=
    (Integrity.survives_of_plain hPlain.integrity hPlain.proofs).defaulted_field
      (by decide)
  have hCreator : Field ["transpilationInfo"] (room + 3) []
      (fun ms => defaulted ms "dataCreator" Creator.ofJson? {})
      ("dataCreator", some h.creator.json) h.creator :=
    (Creator.survives_of_plain hPlain.creator
      hPlain.identifiers).defaulted_field (by decide)
  have hTranspilation : Field ["transpilationInfo"] (room + 3) []
      (fun ms => optional ms "transpilationInfo" some)
      ("transpilationInfo", h.transpilation.map id) h.transpilation :=
    field_of_survives (fun v hv => ⟨⟨(hPlain.transpilation v hv).1, rfl⟩,
      (hPlain.transpilation v hv).2⟩) nofun
  rw [Option.map_id] at hTranspilation
  have hFields :=
    (defaulted_text _ _ "OTJSONVersion" h.version (by decide)).and <|
    (defaulted_text _ _ "datasetCreationTimestamp" h.created (by decide)).and <|
    (defaulted_text _ _ "datasetTitle" h.title (by decide)).and <|
    (defaulted_text _ _ "datasetDescription" h.description (by decide)).and <|
    hTags.and <| hRelated.and <| hSchemas.and <| hIntegrity.and <|
      hCreator.and <|
    hTranspilation.alone
  obtain ⟨hTidy, hAgain⟩ :=
    rewritten_record fieldNames rfl (by decide) (fun _ h => h)
      (tidy_blank (Nat.succ_pos _)) hFields hPlain.extra.symm
  exact ⟨hTidy, ofJson?_eq_some.mpr ⟨_, rfl, hAgain⟩⟩

end Plain

/-! ## Headers of datasets -/

/-- What a header that was read says of the transpilation is tidy. -/
theorem Header.tidy_transpilation {h : Header} {room : Nat}
    (hSurvives : Survives ofJson? json (room + 1) h) :
    ∀ v, h.transpilation = some v → Tidy room v ∧ v ≠ .null := by
  intro v hv
  obtain ⟨members, hWritten, hFields, _⟩ :=
    ofJson?_eq_some.mp hSurvives.read_write
  have hTidy := hSurvives.tidy
  rw [hWritten] at hTidy
  obtain ⟨_, _, _, _, _, _, _, _, _, hTranspilation⟩ := hFields
  rw [hv] at hTranspilation
  obtain ⟨_, hLookup, hNull, hSame⟩ := exists_of_optional hTranspilation
  cases hSame
  exact ⟨(tidy_object.mp hTidy).2 _ (Members.mem_of_lookup hLookup), hNull⟩

/-- The header of a dataset, with whatever root hash it is given, survives. -/
theorem Publisher.survives_header {room : Nat} (p : Publisher) (d : Description)
    (created : Instant)
    (hTranspilation : ∀ v, d.transpilation = some v → Tidy (room + 3) v ∧
      v ≠ .null)
    (text : String) :
    Survives Header.ofJson? Header.json (room + 4)
      ((p.header d created).withRootText text) := by
  refine Header.survives_of_plain ⟨rfl, nofun, ?_, ?_, rfl, ?_, rfl, ?_,
    hTranspilation⟩
  · have hNames : ["erc725-main", "merkleRoot"].Pairwise (· < ·) := by decide
    exact Members.ascending_iff_names.mpr hNames
  · exact List.forall_mem_cons.mpr ⟨rfl, List.forall_mem_singleton.mpr rfl⟩
  · exact List.forall_mem_singleton.mpr rfl
  · exact List.forall_mem_singleton.mpr rfl

end SealedGraph
