import Mathlib
import SealedGraph.Dataset.Publisher
import SealedGraph.Proofs.Graph.FormattedRecords
import SealedGraph.Proofs.Private.Views

/-!
# Formatting

A complete object has identifiers, relations that all have a direction, and no
empty properties.  Formatting makes objects complete and leaves complete objects
as they are, so that formatting twice is formatting once, and what a formatted
document is read as is formatted already.  The public view of a formatted
document is the formatted public view, as no view adds or removes properties.

What a formatted document is written as differs from what the document is
written as in the completed parts only.

## Main results

* `GraphObject.format_eq_self_iff`: complete objects are those that formatting
  leaves.
* `Committer.mapObject_format`, `Publisher.strip_format`: views of what is
  formatted.
* `Relation.completed_json`, `GraphObject.formatted_json`,
  `Document.formatted_json`: what is written.
* `format_document`: all of it for a document that was read.
-/

namespace SealedGraph

open Json

/-! ## Complete objects -/

namespace Relation

theorem format_of_direction {r : Relation} (h : r.direction ≠ none) :
    r.format = r := by
  obtain ⟨direction, hSome⟩ := Option.ne_none_iff_exists'.mp h
  rw [format, hSome, Option.getD_some, ← hSome]

theorem direction_format (r : Relation) : r.format.direction ≠ none := nofun

end Relation

namespace GraphObject

/-- An object that formatting completes has identifiers, relations that all have
a direction, and no empty properties. -/
def Complete (o : GraphObject) : Prop :=
  o.isOtObject = true → o.identifiers ≠ none ∧ o.properties ≠ some [] ∧
    ∃ relations, o.relations = some relations ∧ ∀ r ∈ relations,
    r.direction ≠ none

theorem complete_format (o : GraphObject) : o.format.Complete := by
  by_cases hType : o.isOtObject = true
  · rw [format_of_isOtObject hType]
    refine fun _ =>
      ⟨nofun, ?_, _, rfl, List.forall_mem_map.mpr fun r _ => r.direction_format⟩
    show (o.properties.filter fun properties => !properties.isEmpty) ≠ some []
    rw [Ne, Option.filter_eq_some_iff]
    exact fun h => Bool.noConfusion h.2
  · rw [format_of_other hType]
    exact fun h => absurd h hType

/-- A complete object is left as it is. -/
theorem Complete.format_eq {o : GraphObject} (h : o.Complete) :
    o.format = o := by
  by_cases hType : o.isOtObject = true
  · obtain ⟨hIdentifiers, hProperties, relations, hRelations, hDirections⟩ :=
      h hType
    obtain ⟨identifiers, hSome⟩ := Option.ne_none_iff_exists'.mp hIdentifiers
    have hLinks : relations.map Relation.format = relations := by
      have hSame (r : Relation) (hr : r ∈ relations) : r.format = r :=
        Relation.format_of_direction (hDirections r hr)
      rw [List.map_congr_left hSame, List.map_id']
    have hKept : (o.properties.filter fun properties => !properties.isEmpty) =
        o.properties := by
      cases hGiven : o.properties with
      | none => rfl
      | some properties =>
          cases properties with
          | nil => exact absurd hGiven hProperties
          | cons => rfl
    rw [format_of_isOtObject hType, hKept, hRelations, Option.getD_some,
      hLinks, hSome, Option.getD_some, ← hSome, ← hRelations]
  · exact format_of_other hType

/-- Complete objects are those that formatting leaves as they are. -/
theorem format_eq_self_iff {o : GraphObject} : o.format = o ↔ o.Complete :=
  ⟨fun h => h ▸ o.complete_format, Complete.format_eq⟩

theorem id_format (o : GraphObject) : o.format.id = o.id := by
  unfold format
  split <;> rfl

/-- Properties go only if they are empty. -/
theorem properties_format {o : GraphObject} {properties : Members Json}
    (hSome : o.properties = some properties) (hNe : properties ≠ []) :
    o.format.properties = some properties := by
  unfold format
  split
  · show (o.properties.filter fun properties => !properties.isEmpty) =
        some properties
    rw [hSome, Option.filter_some, if_pos]
    simpa using hNe
  · exact hSome

theorem getD_properties_format (o : GraphObject) :
    o.format.properties.getD [] = o.properties.getD [] := by
  unfold format
  split
  · show (o.properties.filter fun properties => !properties.isEmpty).getD [] = _
    cases o.properties with
    | none => rfl
    | some properties => cases properties <;> rfl
  · rfl

theorem format_withProperties (o : GraphObject) {properties : Members Json}
    (hNe : properties ≠ []) :
    { o with properties := some properties }.format =
      { o.format with properties := some properties } := by
  cases properties with
  | nil => exact absurd rfl hNe
  | cons =>
      unfold format isOtObject
      split <;> rfl

/-- Nulls that are not written do not matter. -/
theorem Complete.settled {o : GraphObject} (h : o.Complete) :
    o.settled.Complete := by
  intro hType
  obtain ⟨hIdentifiers, hProperties, relations, hRelations, hDirections⟩ :=
    h hType
  refine ⟨hIdentifiers, hProperties, relations.map Relation.settled, ?_,
    List.forall_mem_map.mpr hDirections⟩
  rw [GraphObject.settled, hRelations]
  rfl

end GraphObject

namespace Document

/-- A document of complete objects is left as it is. -/
theorem format_of_complete {d : Document} (h : ∀ o ∈ d.graph, o.Complete) :
    d.format = d := by
  have hSame : d.graph.map GraphObject.format = d.graph := by
    rw [List.map_congr_left fun o ho => (h o ho).format_eq, List.map_id']
  exact congrArg (fun graph => { d with graph := graph }) hSame

/-- Formatting twice is formatting once. -/
theorem format_format (d : Document) : d.format.format = d.format :=
  format_of_complete (List.forall_mem_map.mpr fun o _ => o.complete_format)

/-- What a formatted document is read as is formatted already. -/
theorem format_settled (d : Document) :
    d.format.settled.format = d.format.settled :=
  format_of_complete
    (List.forall_mem_map.mpr (List.forall_mem_map.mpr fun o _ =>
      o.complete_format.settled))

end Document

/-! ## Formatted views -/

namespace Committer

variable {c : Committer}
  {change : Slot → PrivateEntry → Except Error PrivateEntry}

/-- There is nothing to change where there are no properties. -/
theorem mapObject_of_empty {o : GraphObject} (h : o.properties.getD [] = []) :
    c.mapObject change o = .ok o := by
  refine mapObject_eq_ok.mpr ?_
  cases hSome : o.properties with
  | none => exact .inl ⟨rfl, rfl⟩
  | some properties =>
      rw [hSome] at h
      cases h
      exact .inr ⟨[], [], rfl, rfl, by rw [← hSome]⟩

theorem mapObject_of_some {o : GraphObject} {properties : Members Json}
    (h : o.properties = some properties) :
    c.mapObject change o = (properties.mapM (c.mapProperty change o.id)).map
      fun changed =>
      { o with properties := some changed } := by
  unfold mapObject
  rw [h]
  show (properties.mapM (c.mapProperty change o.id) >>= _) = _
  cases properties.mapM (c.mapProperty change o.id) <;> rfl

/-- A view of a formatted object is the formatted view. -/
theorem mapObject_format (o : GraphObject) :
    c.mapObject change o.format =
      (c.mapObject change o).map GraphObject.format := by
  by_cases hEmpty : o.properties.getD [] = []
  · rw [mapObject_of_empty hEmpty,
      mapObject_of_empty (o.getD_properties_format.trans hEmpty)]
    rfl
  · obtain ⟨properties, hSome, hNe⟩ :
        ∃ properties, o.properties = some properties ∧ properties ≠ [] := by
      cases hSome : o.properties with
      | none => exact absurd (congrArg (Option.getD · []) hSome) hEmpty
      | some properties =>
          exact ⟨properties, rfl, fun h => hEmpty (by rw [hSome, h]; rfl)⟩
    have hId :
        c.mapProperty change o.format.id = c.mapProperty change o.id := by
      rw [o.id_format]
    rw [mapObject_of_some hSome,
      mapObject_of_some (GraphObject.properties_format hSome hNe), hId]
    -- As many properties as before are left, so they do not become empty in
    -- between.
    cases hChanged : properties.mapM (c.mapProperty change o.id) with
    | error => rfl
    | ok changed =>
        have hLength := (mapM_eq_ok.mp hChanged).length_eq
        have hSome : changed ≠ [] :=
          fun hNone => hNe (by simpa [hNone] using hLength)
        exact congrArg Except.ok (o.format_withProperties hSome).symm

theorem mapM_map_eq {α β : Type} {f : α → Except Error β} {g : α → α}
    {k : β → β} (h : ∀ x, f (g x) = (f x).map k) (xs : List α) :
    (xs.map g).mapM f = (xs.mapM f).map (List.map k) := by
  induction xs with
  | nil => rfl
  | cons x xs ih =>
      rw [List.map_cons, List.mapM_cons, List.mapM_cons, h, ih]
      cases f x with
      | error => rfl
      | ok y =>
          cases xs.mapM f <;> rfl

end Committer

/-- The public view of a formatted document is the formatted public view. -/
theorem Publisher.strip_format (p : Publisher) (d : Document) :
    p.strip d.format = (p.strip d).map Document.format := by
  have hGraph : p.committer.stripGraph d.format.graph =
      (p.committer.stripGraph d.graph).map (List.map GraphObject.format) :=
    Committer.mapM_map_eq Committer.mapObject_format d.graph
  rw [strip, strip, hGraph]
  cases p.committer.stripGraph d.graph <;> rfl

/-! ## What is written -/

/-- What was given, or a default in the place of nothing or a null. -/
def Json.orDefault (default : Json) : Option Json → Json
  | none => default
  | some .null => default
  | some v => v

theorem Json.orDefault_of_tells {members : Members Json} {name : String}
    {x : Option Json} (h : Tells members (name, x)) (hx : x ≠ some .null)
    (default : Json) :
    orDefault default (members.lookup name) = x.getD default := by
  rcases h with h | ⟨hNone, h⟩
  · rw [h]
    cases x with
    | none => rfl
    | some v =>
        cases v with
        | null => exact absurd rfl hx
        | _ => rfl
  · rw [h, show x = none from hNone]
    rfl

/-- The value `w` of a relation differs from `v` in having a direction where `v`
has none. -/
structure Relation.Completed (v w : Json) : Prop where
  direction : ∃ text,
    orDefault (.string defaultDirection) (v.get? "direction") = .string text ∧
    w.get? "direction" = some (.string text)
  others : ∀ name, name ≠ "direction" → w.get? name = v.get? name

/-- The value `w` of an object differs from `v` in having identifiers and
relations where `v` has none, directions in all relations, and no properties
where those of `v` are empty. -/
structure GraphObject.Completed (v w : Json) : Prop where
  identifiers :
    ∃ items, orDefault (.array []) (v.get? "identifiers") = .array items ∧
    w.get? "identifiers" = some (.array items)
  relations :
    ∃ given made, orDefault (.array []) (v.get? "relations") = .array given ∧
    w.get? "relations" = some (.array made) ∧
    List.Forall₂ Relation.Completed given made
  properties : w.get? "properties" ≠ some (.object [])
  emptied : v.get? "properties" = some (.object []) → w.get? "properties" = none
  kept : v.get? "properties" ≠ some (.object []) →
    w.get? "properties" = v.get? "properties"
  others : ∀ name, name ∉ ["identifiers", "properties", "relations"] →
    w.get? name = v.get? name

/-- Only objects of one type are completed. -/
structure GraphObject.Formatted (v w : Json) : Prop where
  completed : v.get? "@type" = some (.string otType) → Completed v w
  other : v.get? "@type" ≠ some (.string otType) → w = v

/-- The value `w` of a document differs from `v` in its objects only. -/
structure Document.Formatted (v w : Json) : Prop where
  graph : ∃ given made, v.get? "@graph" = some (.array given) ∧
    w.get? "@graph" = some (.array made) ∧
    List.Forall₂ GraphObject.Formatted given made
  others : ∀ name, name ≠ "@graph" → w.get? name = v.get? name

theorem Relation.get?_json (r : Relation) (name : String) :
    r.json.get? name = (written r.fields r.extra).lookup name := rfl

theorem Relation.completed_json {r : Relation} {room : Nat}
    (h : Survives ofJson? json room r) :
    Completed r.json r.format.json := by
  obtain ⟨hFits, hFormatted⟩ := fits_of_survives h
  have hGiven := hFits.recorded
  have hMade := hFormatted.recorded
  constructor
  · have hField : ("direction", r.direction.map .string) ∈ r.fields := by
      simp [fields]
    have hMadeField :
        ("direction", some (.string (r.direction.getD defaultDirection))) ∈
          r.format.fields := by simp [fields, format]
    refine ⟨r.direction.getD defaultDirection, ?_,
      hMade.lookup_written hMadeField⟩
    rw [get?_json,
      orDefault_of_tells (hGiven.tells _ hField)
        (by cases r.direction <;> simp)]
    cases r.direction <;> rfl
  · intro name hName
    refine lookup_written_congr hMade hGiven fun v => ?_
    simp [fields, format, hName]

namespace GraphObject

variable {o : GraphObject} {room : Nat}

theorem get?_json (o : GraphObject) (name : String) :
    o.json.get? name = (written o.fields o.extra).lookup name := rfl

theorem get?_type_json (h : o.Fits room) :
    o.json.get? "@type" = some (.string otType) ↔ o.isOtObject = true := by
  have hField : ("@type", o.type.map .string) ∈ o.fields := by simp [fields]
  rw [get?_json, isOtObject, beq_iff_eq]
  rcases h.recorded.tells _ hField with hTold | ⟨hNone, hTold⟩
  · rw [hTold]
    cases o.type <;> simp
  · rw [hTold]
    cases hType : o.type with
    | none => simp
    | some type => simp [hType] at hNone

/-- What is found under the name of a field, or else a default. -/
theorem orDefault_json (h : o.Fits room) {name : String} {x : Option Json}
    (hField : (name, x) ∈ o.fields) (hx : x ≠ some .null) (default : Json) :
    orDefault default (o.json.get? name) = x.getD default :=
  orDefault_of_tells (h.recorded.tells _ hField) hx default

theorem get?_properties_json (h : o.Fits room) :
    o.json.get? "properties" =
      (o.properties.map .object).or (o.extra.lookup "properties") := by
  have hField : ("properties", o.properties.map .object) ∈ o.fields := by
    simp [fields]
  exact h.recorded.lookup_written hField

/-- No null is parked beside properties that an object has. -/
theorem lookup_properties_extra (h : Survives ofJson? json room o)
    (hFits : o.Fits room) {properties : Members Json}
    (hSome : o.properties = some properties) :
    o.extra.lookup "properties" = none := by
  -- An object that is read as itself is settled, so it has no null that is not
  -- written.
  have hSame : o.settled = o :=
    Option.some.inj (hFits.settles.read_write.symm.trans h.read_write)
  have hKept : unshadowed o.fields o.extra = o.extra :=
    congrArg GraphObject.extra hSame
  cases hParked : o.extra.lookup "properties" with
  | none => rfl
  | some v =>
      have hMember := Members.mem_of_lookup hParked
      have hName : "properties" ∈ fieldNames := by decide
      have hNull := (hFits.recorded.apart _ hMember hName).2
      rw [← hKept] at hMember
      refine absurd ?_
        ((mem_unshadowed.mp hMember).2 hNull (.object properties))
      simp [fields, hSome]

/-! ### Completed objects -/

section Completed

variable (hRoom : 2 ≤ room) (h : Survives ofJson? json room o)
  (hType : o.isOtObject = true)

include hRoom h hType

theorem recorded_format :
    Recorded fieldNames fieldNames o.format.fields o.extra := by
  have hFormatted := (fits_of_survives hRoom h).2.recorded
  rw [format_of_isOtObject hType] at hFormatted ⊢
  exact hFormatted

theorem get?_format {name : String} {x : Option Json}
    (hField : (name, x) ∈ o.format.fields) :
    o.format.json.get? name = x.or (o.extra.lookup name) := by
  rw [← (recorded_format hRoom h hType).lookup_written hField,
    format_of_isOtObject hType]
  rfl

theorem identifiers_completed :
    ∃ items, orDefault (.array []) (o.json.get? "identifiers") = .array items ∧
      o.format.json.get? "identifiers" = some (.array items) := by
  have hGiven : ("identifiers", o.identifiers.map .array) ∈ o.fields := by
    simp [fields]
  have hMade :
      ("identifiers", some (.array (o.identifiers.getD []))) ∈
        o.format.fields := by
    simp [format_of_isOtObject hType, fields]
  refine ⟨o.identifiers.getD [], ?_, get?_format hRoom h hType hMade⟩
  rw [orDefault_json (fits_of_survives hRoom h).1 hGiven
    (by cases o.identifiers <;> simp)]
  cases o.identifiers <;> rfl

theorem relations_completed :
    ∃ given made,
      orDefault (.array []) (o.json.get? "relations") = .array given ∧
      o.format.json.get? "relations" = some (.array made) ∧
      List.Forall₂ Relation.Completed given made := by
  have hGiven : ("relations", o.relations.map fun relations =>
      Json.array (relations.map Relation.json)) ∈ o.fields := by simp [fields]
  have hMade :
      ("relations",
        some (.array ((o.relations.getD []).map fun r => r.format.json))) ∈
      o.format.fields := by
    simp [format_of_isOtObject hType, fields]
  refine ⟨(o.relations.getD []).map Relation.json, _, ?_,
    get?_format hRoom h hType hMade, ?_⟩
  · rw [orDefault_json (fits_of_survives hRoom h).1 hGiven
      (by cases o.relations <;> simp)]
    cases o.relations <;> rfl
  · rw [List.forall₂_map_left_iff, List.forall₂_map_right_iff,
      List.forall₂_same]
    obtain ⟨_, _, hLinks⟩ := survives_relations hRoom h
    exact fun r hr => Relation.completed_json (hLinks r hr)

theorem properties_completed :
    (o.json.get? "properties" = some (.object []) →
      o.format.json.get? "properties" = none) ∧
      (o.json.get? "properties" ≠ some (.object []) →
        o.format.json.get? "properties" = o.json.get? "properties") := by
  have hFits := (fits_of_survives hRoom h).1
  have hMade :
      ("properties",
        (o.properties.filter fun properties => !properties.isEmpty).map
        .object) ∈ o.format.fields := by
    simp [format_of_isOtObject hType, fields]
  rw [get?_properties_json hFits, get?_format hRoom h hType hMade]
  cases hSome : o.properties with
  | none =>
      refine ⟨fun hParked => ?_, fun _ => rfl⟩
      have hNull :=
        (hFits.recorded.apart _ (Members.mem_of_lookup hParked) (by decide)).2
      cases hNull
  | some properties =>
      cases properties with
      | nil =>
          exact ⟨fun _ => lookup_properties_extra h hFits hSome,
            fun hNe => absurd rfl hNe⟩
      | cons =>
          refine ⟨fun hSame => ?_, fun _ => rfl⟩
          cases hSame

theorem completed_json : Completed o.json o.format.json := by
  have hFits := (fits_of_survives hRoom h).1
  obtain ⟨hEmptied, hKept⟩ := properties_completed hRoom h hType
  have hFilled : o.format.json.get? "properties" ≠ some (.object []) := by
    intro hSame
    by_cases hEmpty : o.json.get? "properties" = some (.object [])
    · rw [hEmptied hEmpty] at hSame
      cases hSame
    · exact hEmpty ((hKept hEmpty).symm.trans hSame)
  refine ⟨identifiers_completed hRoom h hType,
    relations_completed hRoom h hType, hFilled, hEmptied, hKept,
    fun name hName => ?_⟩
  have hFields (v : Json) : (name, some v) ∈ o.format.fields ↔
      (name, some v) ∈ o.fields := by
    simp only [List.mem_cons, List.not_mem_nil, or_false, not_or] at hName
    simp [format_of_isOtObject hType, fields, hName]
  rw [get?_json o,
    ← lookup_written_congr (recorded_format hRoom h hType)
      hFits.recorded hFields, format_of_isOtObject hType]
  rfl

end Completed

theorem formatted_json (hRoom : 2 ≤ room) (h : Survives ofJson? json room o) :
    Formatted o.json o.format.json := by
  have hOt := get?_type_json (fits_of_survives hRoom h).1
  refine ⟨fun hType => completed_json hRoom h (hOt.mp hType), fun hType => ?_⟩
  rw [format_of_other fun hHere => hType (hOt.mpr hHere)]

end GraphObject

namespace Document

variable {d : Document} {room : Nat}

theorem get?_json (d : Document) (name : String) :
    d.json.get? name = (written d.fields d.extra).lookup name := rfl

theorem get?_graph_json (h : Recorded fieldNames nullable d.fields d.extra) :
    d.json.get? "@graph" = some (.array (d.graph.map GraphObject.json)) := by
  have hField :
      ("@graph", some (.array (d.graph.map GraphObject.json))) ∈ d.fields := by
    simp [fields]
  rw [get?_json, h.lookup_written hField]
  rfl

theorem formatted_json (hRoom : 2 ≤ room)
    (h : Survives ofNormal? json (room + 2) d) :
    Formatted d.json d.format.json := by
  have hGiven := recorded_of_survives (Nat.add_le_add_right hRoom 2) h
  have hMade :=
    recorded_of_survives (Nat.add_le_add_right hRoom 2)
      (survives_format hRoom h)
  rw [← json_settled d.format]
  constructor
  · refine ⟨_, _, get?_graph_json hGiven, get?_graph_json hMade, ?_⟩
    rw [settled, format, List.forall₂_map_left_iff, List.forall₂_map_right_iff,
      List.forall₂_map_right_iff, List.forall₂_map_right_iff, List.forall₂_same]
    intro o ho
    rw [GraphObject.json_settled]
    exact GraphObject.formatted_json hRoom (survives_object hRoom h o ho)
  · intro name hName
    refine lookup_written_congr hMade hGiven fun v => ?_
    simp [fields, settled, format, hName]

end Document

/-- Formatting a document that was read: once is enough, the public view of the
result is the result for the public view, and what it is written as is read as a
formatted document that is written as the same.  Of what is written, the
completed objects are other than before, and these in the completed parts. -/
theorem format_document (p : Publisher) {text : String} {d : Document}
    (hRead : Document.parse text = .ok d) :
    d.format.format = d.format ∧
    p.strip d.format = (p.strip d).map Document.format ∧
    (∃ d', Document.ofJson d.format.json = .ok d' ∧ d'.format = d' ∧
      d'.format.json = d.format.json) ∧
    Document.Formatted d.json d.format.json := by
  have hRoom : 2 ≤ Json.maxDepth - 2 := by decide
  have hSurvives := Document.survives_of_parse hRead
  refine ⟨d.format_format, p.strip_format d, ?_,
    Document.formatted_json hRoom hSurvives⟩
  have hFormatted := Document.survives_format hRoom hSurvives
  refine ⟨d.format.settled, ?_, d.format_settled, ?_⟩
  · rw [Document.ofJson_eq_ok, ← d.format.json_settled, hFormatted.tidy.normal]
    exact hFormatted.read_write
  · rw [d.format_settled, d.format.json_settled]

/-! ## A document with nulls, empty and missing parts -/

/-- Two objects that are completed, with nulls, an empty table and relations
with and without a direction, and one that is not. -/
def partialText : String :=
  "\x7b\"@graph\":[\x7b\"@type\":\"otObject\",\"identifiers\":null," ++
    "\"properties\":\x7b\x7d,\"relations\":[\x7b\"direction\":null\x7d," ++
    "\x7b\"direction\":\"reverse\"\x7d,\x7b\x7d]\x7d," ++
    "\x7b\"@type\":\"otObject\",\"properties\":null\x7d," ++
    "\x7b\"properties\":\x7b\x7d,\"relations\":null\x7d]\x7d"

/-- What its formatted document is written as. -/
def completeText : String :=
  "\x7b\"@graph\":[\x7b\"@type\":\"otObject\",\"identifiers\":[]," ++
    "\"relations\":[\x7b\"direction\":\"direct\"\x7d," ++
    "\x7b\"direction\":\"reverse\"\x7d," ++
    "\x7b\"direction\":\"direct\"\x7d]\x7d," ++
    "\x7b\"@type\":\"otObject\",\"identifiers\":[],\"properties\":null," ++
    "\"relations\":[]\x7d," ++
    "\x7b\"properties\":\x7b\x7d,\"relations\":null\x7d]\x7d"

set_option maxRecDepth 100000 in
theorem format_document_partial : ∃ (p : Publisher) (d shown : Document),
    Document.parse partialText = .ok d ∧
    d.format.json.canonicalText = completeText ∧
    p.strip d = .ok shown ∧ d.format.format = d.format ∧
    p.strip d.format = .ok shown.format ∧
    (∃ d', Document.ofJson d.format.json = .ok d' ∧ d'.format = d' ∧
      d'.format.json = d.format.json) ∧
    Document.Formatted d.json d.format.json := by
  let p : Publisher := ⟨{}, Settings.valid_default⟩
  have hText : (Document.parse partialText).toOption.any fun d =>
      d.format.json.canonicalText =
        completeText && (p.strip d).toOption.isSome := by
    decide +kernel
  obtain ⟨d, hd, hBoth⟩ := (Option.any_eq_true _ _).mp hText
  obtain ⟨hComplete, hSome⟩ := Bool.and_eq_true_iff.mp hBoth
  have hRead := toOption_eq_some.mp hd
  obtain ⟨shown, hShown⟩ := exists_ok hSome
  obtain ⟨hOnce, hStrip, hAgain, hFormatted⟩ := format_document p hRead
  rw [hShown] at hStrip
  exact ⟨p, d, shown, hRead, of_decide_eq_true hComplete, hShown, hOnce, hStrip,
    hAgain, hFormatted⟩

end SealedGraph
