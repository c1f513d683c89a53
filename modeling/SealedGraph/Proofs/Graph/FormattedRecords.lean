import Mathlib
import SealedGraph.Graph.Canonical
import SealedGraph.Proofs.Graph.Survival

/-!
# Formatted things are written and read

Formatting gives values to fields for which a null may be parked.  Such a null
is not written any more, so what is read is the formatted thing without it: the
thing is settled.  Before and after it is settled, a thing is written as the
same.

The fields of a formatted thing stand beside the other members that it was read
with.  What is found under a name then depends on the field of that name and on
what is parked there, not on the fields that formatting changes.

## Main results

* `lookup_written_congr`: what is found under a name whose field did not change.
* `Document.json_settled`: settled documents are written as before.
* `Relation.fits_of_survives`, `GraphObject.fits_of_survives`: formatted
  relations and objects fit.
* `Document.survives_format`: what a formatted document is read as.
-/

namespace SealedGraph

open Json

/-! ## Shadowed nulls -/

namespace Json

variable {fields others : List (String × Option Json)}
  {names nullable : List String} {extra : Members Json}

/-- Nothing is shadowed twice. -/
theorem unshadowed_unshadowed (fields : List (String × Option Json))
    (extra : Members Json) :
    unshadowed fields (unshadowed fields extra) = unshadowed fields extra := by
  rw [unshadowed, unshadowed, List.filter_filter]
  simp only [Bool.and_self]

theorem ofNullKeeping_unshadowed (fields : List (String × Option Json))
    (extra : Members Json) :
    ofNullKeeping fields (unshadowed fields extra) =
      ofNullKeeping fields extra := by
  rw [ofNullKeeping, unshadowed_unshadowed, ofNullKeeping]

/-- What is found under a name depends on the field of that name only. -/
theorem lookup_written_congr (h : Recorded names nullable fields extra)
    (hOthers : Recorded names nullable others extra) {name : String}
    (hSame : ∀ v, (name, some v) ∈ fields ↔ (name, some v) ∈ others) :
    (written fields extra).lookup name =
      (written others extra).lookup name := by
  refine Members.lookup_congr (Members.ascending_ofList _)
    (Members.ascending_ofList _) fun v => ?_
  rw [h.mem_written, hOthers.mem_written, mem_unshadowed, mem_unshadowed]
  simp only [hSame]

/-- `x` is written as a tidy value, and `settle x` is read of it. -/
structure Settles {α : Type} (read : Json → Option α) (write : α → Json)
    (settle : α → α) (room : Nat) (x : α) : Prop where
  tidy : Tidy room (write x)
  read_write : read (write x) = some (settle x)

theorem settles_list {α : Type} {read : Json → Option α} {write : α → Json}
    {settle : α → α} {room : Nat} {xs : List α}
    (h : ∀ x ∈ xs, Settles read write settle room x) :
    Settles (listOf? read) (fun xs => .array (xs.map write)) (List.map settle)
      (room + 1) xs :=
  ⟨tidy_array.mpr (List.forall_mem_map.mpr fun x hx => (h x hx).tidy),
    mapM_map_eq_some_map.mpr fun x hx => (h x hx).read_write⟩

end Json

/-! ## Relations -/

namespace Relation

variable {r : Relation} {room : Nat}

/-- The fields under which a relation is written. -/
def fields (r : Relation) : List (String × Option Json) :=
  [("@type", r.type.map .string), ("linkedObject", r.linkedObject),
    ("direction", r.direction.map .string), ("properties", r.properties)]

/-- The relation without the nulls that it is written without. -/
def settled (r : Relation) : Relation :=
  { r with extra := unshadowed r.fields r.extra }

theorem json_settled (r : Relation) : r.settled.json = r.json :=
  ofNullKeeping_unshadowed r.fields r.extra

/-- A relation whose fields can stand beside its other members. -/
structure Fits (r : Relation) (room : Nat) : Prop where
  recorded : Recorded fieldNames fieldNames r.fields r.extra
  settles : Settles ofJson? json settled room r

theorem fits_of_fields {members : Members Json}
    (hMembers : Tidy (room + 1) (.object members))
    (hFit : ∀ field ∈ r.fields, Fit fieldNames room field)
    (hExtra : othersAndNulls fieldNames fieldNames members = r.extra) :
    r.Fits (room + 1) := by
  obtain ⟨hRecorded, hTidy⟩ :=
    recorded_of_members fieldNames rfl (by decide)
      (fun _ h => h) hMembers hFit hExtra
  have hTells := hRecorded.tells
  simp only [fields, List.forall_mem_cons] at hTells hFit
  obtain ⟨hType, hLinked, hDirection, hProperties, _⟩ := hTells
  have hLinkedName : "linkedObject" ∈ fieldNames := by decide
  have hPropertiesName : "properties" ∈ fieldNames := by decide
  refine ⟨hRecorded, hTidy, ofJson?_eq_some.mpr ⟨_, rfl, ⟨?_, ?_, ?_, ?_⟩,
    hRecorded.othersAndNulls_written⟩⟩
  · exact optional_of_tells hType fun text _ => ⟨Json.noConfusion, rfl⟩
  · exact value_of_tells hLinked (hFit.2.1.filled hLinkedName)
  · exact optional_of_tells hDirection fun text _ => ⟨Json.noConfusion, rfl⟩
  · exact value_of_tells hProperties (hFit.2.2.2.1.filled hPropertiesName)

/-- A relation that survives fits, and so it does with a direction. -/
theorem fits_of_survives (h : Survives ofJson? json room r) :
    r.Fits room ∧ r.format.Fits room := by
  obtain ⟨members, inner, hWritten, rfl, hFields, hExtra⟩ :=
    exists_fieldsOf h.tidy h.read_write
  have hTidy := hWritten ▸ h.tidy
  have hDirection :
      Fit fieldNames inner ("direction", r.format.direction.map .string) :=
    fit_some _ (.string inner _) fun _ => Json.noConfusion
  constructor
  · refine fits_of_fields hTidy ?_ hExtra
    simp only [fields, List.forall_mem_cons]
    exact ⟨hFields.type.toFit, hFields.linkedObject.toFit,
      hFields.direction.toFit, hFields.properties.toFit, List.forall_mem_nil _⟩
  · refine fits_of_fields hTidy ?_ hExtra
    simp only [fields, List.forall_mem_cons]
    exact ⟨hFields.type.toFit, hFields.linkedObject.toFit, hDirection,
      hFields.properties.toFit, List.forall_mem_nil _⟩

end Relation

/-! ## Objects -/

namespace GraphObject

variable {o : GraphObject} {room : Nat}

/-- The object and its relations without the nulls that they are written
without. -/
def settled (o : GraphObject) : GraphObject :=
  { o with
    relations := o.relations.map fun relations => relations.map Relation.settled
    extra := unshadowed o.fields o.extra }

theorem fields_settled (o : GraphObject) : o.settled.fields = o.fields := by
  have hRelations :
      (o.settled.relations.map fun relations =>
        .array (relations.map Relation.json)) =
      o.relations.map fun relations =>
        Json.array (relations.map Relation.json) := by
    show (o.relations.map _).map _ = _
    rw [Option.map_map]
    simp only [Function.comp_def, List.map_map, Relation.json_settled]
  unfold fields
  rw [hRelations]
  rfl

theorem json_settled (o : GraphObject) : o.settled.json = o.json := by
  show ofNullKeeping o.settled.fields (unshadowed o.fields o.extra) =
      ofNullKeeping o.fields o.extra
  rw [fields_settled, ofNullKeeping_unshadowed]

theorem format_of_isOtObject (h : o.isOtObject = true) : o.format = { o with
    identifiers := some (o.identifiers.getD [])
    properties := o.properties.filter fun properties => !properties.isEmpty
    relations := some ((o.relations.getD []).map Relation.format) } :=
  if_pos h

theorem format_of_other (h : ¬ o.isOtObject = true) : o.format = o := if_neg h

/-- An object whose fields can stand beside its other members. -/
structure Fits (o : GraphObject) (room : Nat) : Prop where
  recorded : Recorded fieldNames fieldNames o.fields o.extra
  settles : Settles ofJson? json settled room o

theorem fits_of_fields {members : Members Json}
    (hMembers : Tidy (room + 1) (.object members))
    (hFit : ∀ field ∈ o.fields, Fit fieldNames room field)
    (hExtra : othersAndNulls fieldNames fieldNames members = o.extra)
    (hRelations : ∀ relations, o.relations = some relations →
      ∀ r ∈ relations, Relation.ofJson? r.json = some r.settled) :
        o.Fits (room + 1) := by
  obtain ⟨hRecorded, hTidy⟩ :=
    recorded_of_members fieldNames rfl (by decide)
      (fun _ h => h) hMembers hFit hExtra
  have hTells := hRecorded.tells
  simp only [fields, List.forall_mem_cons] at hTells
  obtain ⟨hId, hType, hIdentifiers, hProperties, hLinks, _⟩ := hTells
  refine ⟨hRecorded, hTidy, ofJson?_eq_some.mpr ⟨_, rfl, ⟨?_, ?_, ?_, ?_, ?_⟩,
    hRecorded.othersAndNulls_written⟩⟩
  · exact id_of_tells hId
  · exact optional_of_tells hType fun text _ => ⟨Json.noConfusion, rfl⟩
  · exact optional_of_tells hIdentifiers fun items _ => ⟨Json.noConfusion, rfl⟩
  · exact optional_of_tells hProperties fun properties _ =>
      ⟨Json.noConfusion, rfl⟩
  · show _ = some (o.relations.map _)
    cases hSome : o.relations with
    | none =>
        rw [hSome] at hLinks
        exact optional_eq_none hLinks
    | some relations =>
        rw [hSome] at hLinks
        exact optional_eq_some hLinks Json.noConfusion
          (mapM_map_eq_some_map.mpr (hRelations relations hSome))

/-- The relations of an object that survives do so themselves. -/
theorem survives_relations (hRoom : 2 ≤ room)
    (h : Survives ofJson? json room o) :
    ∃ least, room = least + 2 ∧
      ∀ r ∈ o.relations.getD [],
        Survives Relation.ofJson? Relation.json least r := by
  obtain ⟨members, inner, _, rfl, hInner, hFields, _⟩ :=
    exists_fieldsOf hRoom h.tidy h.read_write
  obtain ⟨least, rfl⟩ : ∃ least, inner = least + 1 := ⟨inner - 1, by omega⟩
  refine ⟨least, rfl, ?_⟩
  cases hSome : o.relations with
  | none => exact nofun
  | some relations =>
      exact survives_list.mp (hFields.relations.survives_optional hSome)

section Fields

variable {members : Members Json} (h : FieldsOf o members room)

include h

theorem FieldsOf.tidy_identifiers (hRoom : 1 ≤ room) :
    Tidy room (.array (o.identifiers.getD [])) := by
  cases hSome : o.identifiers with
  | none => exact tidy_nil hRoom
  | some items =>
      exact h.identifiers.tidy _ (congrArg (Option.map Json.array) hSome)

theorem FieldsOf.fit_properties : Fit fieldNames room
    ("properties", (o.properties.filter fun properties =>
      !properties.isEmpty).map .object) := by
  have hFit := h.properties.toFit
  cases hSome : o.properties with
  | none => exact fit_none _
  | some properties =>
      rw [hSome] at hFit
      cases properties with
      | nil => exact fit_none _
      | cons => exact hFit

/-- The fields of the completed object fit where its relations have room. -/
theorem FieldsOf.fit_format (hType : o.isOtObject = true) (hRoom : 1 ≤ room)
    (hRelations : Tidy room
      (.array
        (((o.relations.getD []).map Relation.format).map Relation.json))) :
    ∀ field ∈ o.format.fields, Fit fieldNames room field := by
  rw [format_of_isOtObject hType]
  simp only [fields, List.forall_mem_cons]
  exact ⟨h.id.toFit, h.type.toFit,
    fit_some _ (h.tidy_identifiers hRoom) fun _ => Json.noConfusion,
    h.fit_properties, fit_some _ hRelations fun _ => Json.noConfusion,
    List.forall_mem_nil _⟩

end Fields

/-- An object that survives fits, and so it does when it is completed. -/
theorem fits_of_survives (hRoom : 2 ≤ room) (h : Survives ofJson? json room o) :
    o.Fits room ∧ o.format.Fits room := by
  obtain ⟨least, rfl, hSurvive⟩ := survives_relations hRoom h
  obtain ⟨members, inner, hWritten, hSame, hInner, hFields, hExtra⟩ :=
    exists_fieldsOf hRoom h.tidy h.read_write
  cases hSame
  have hTidy := hWritten ▸ h.tidy
  have hGiven : o.Fits (least + 2) := by
    refine fits_of_fields hTidy hFields.fit hExtra fun relations hSome r hr =>
      ?_
    rw [hSome] at hSurvive
    exact (Relation.fits_of_survives (hSurvive r hr)).1.settles.read_write
  refine ⟨hGiven, ?_⟩
  -- The members that the object was read with stay beside the completed fields.
  by_cases hType : o.isOtObject = true
  · have hCompleted : ∀ r ∈ (o.relations.getD []).map Relation.format,
        r.Fits least :=
      List.forall_mem_map.mpr fun r hr =>
        (Relation.fits_of_survives (hSurvive r hr)).2
    have hRelations := settles_list fun r hr => (hCompleted r hr).settles
    have hFit := hFields.fit_format hType hInner hRelations.tidy
    rw [format_of_isOtObject hType] at hFit ⊢
    refine fits_of_fields hTidy hFit hExtra fun relations hSome r hr => ?_
    cases hSome
    exact (hCompleted r hr).settles.read_write
  · rw [format_of_other hType]
    exact hGiven

/-- What an object that fits is read as survives. -/
theorem Fits.survives_settled (h : o.Fits room) :
    Survives ofJson? json room o.settled :=
  ⟨o.json_settled ▸ h.settles.tidy, o.json_settled ▸ h.settles.read_write⟩

end GraphObject

/-! ## Documents -/

namespace Document

variable {d : Document} {room : Nat}

/-- The document without the nulls that its objects are written without. -/
def settled (d : Document) : Document :=
  { d with graph := d.graph.map GraphObject.settled }

theorem json_settled (d : Document) : d.settled.json = d.json := by
  have hGraph :
      d.settled.graph.map GraphObject.json = d.graph.map GraphObject.json := by
    rw [settled, List.map_map]
    exact List.map_congr_left fun o _ => o.json_settled
  unfold json
  rw [hGraph]
  rfl

/-- A formatted document is read as its settled form. -/
theorem survives_format (hRoom : 2 ≤ room)
    (h : Survives ofNormal? json (room + 2) d) :
    Survives ofNormal? json (room + 2) d.format.settled := by
  refine survives_withGraph hRoom h fun o ho => ?_
  obtain ⟨_, hFormatted, rfl⟩ := List.mem_map.mp ho
  obtain ⟨given, hGiven, rfl⟩ := List.mem_map.mp hFormatted
  exact (GraphObject.fits_of_survives hRoom
    (survives_object hRoom h given hGiven)).2.survives_settled

end Document
end SealedGraph
