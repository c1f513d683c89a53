import Mathlib
import SealedGraph.Dataset.Distribution
import SealedGraph.Proofs.Dataset.RootBinding
import SealedGraph.Proofs.Graph.Sorting

/-!
# Objects that look alike

Whatever is hashed of a graph is hashed through canonical texts, which show
values in normal form.  Two objects look alike if nothing of this sort tells
them apart; then neither do graphs, documents and distribution trees in which
one stands for the other.

Sorting things by the digests of their texts gives the same texts in the same
order, whatever the order in which they came, as long as no two different
texts among them have one digest.

## Main results

* `Json.normalize_ofNullKeeping_congr`: records whose fields look alike do so
  too.
* `normalize_sortByDigest`: things sorted by digest look alike.
* `Document.canonicalText_congr`, `Distribution.items_congr`: what is hashed of
  graphs that look alike.
-/

namespace SealedGraph

/-! ## Normal forms of records -/

namespace Members

variable {α β : Type} (f : α → β)

theorem map_insertNew (name : String) (value : α) (ms : Members α) :
    (insertNew name value ms).map (fun pair => (pair.1, f pair.2)) =
      insertNew name (f value) (ms.map fun pair => (pair.1, f pair.2)) := by
  induction ms with
  | nil => rfl
  | cons pair rest ih =>
      obtain ⟨other, found⟩ := pair
      simp only [insertNew, List.map_cons]
      split
      · rfl
      · split
        · rfl
        · rw [List.map_cons, ih]

theorem map_ofList (pairs : List (String × α)) :
    (ofList pairs).map (fun pair => (pair.1, f pair.2)) =
      ofList (pairs.map fun pair => (pair.1, f pair.2)) := by
  induction pairs with
  | nil => rfl
  | cons pair rest ih =>
      show (insertNew pair.1 pair.2 (ofList rest)).map _ =
          insertNew pair.1 (f pair.2) _
      rw [map_insertNew, ih]
      rfl

end Members

namespace Json

/-- The normal form of a record is the table of the normal forms of its
members. -/
theorem normalize_ofList (pairs : List (String × Json)) :
    (Json.object (Members.ofList pairs)).normalize =
      .object (Members.ofList (normalizeMembers pairs)) := by
  rw [normalize, normalizeMembers_eq_map, normalizeMembers_eq_map,
    Members.map_ofList,
    Members.ofList_of_ascending (Members.ascending_ofList _)]

/-- Fields with their values in normal form. -/
def normalFields (fields : List (String × Option Json)) :
    List (String × Option Json) :=
  fields.map fun field => (field.1, field.2.map normalize)

theorem present_normalFields (fields : List (String × Option Json)) :
    present (normalFields fields) = normalizeMembers (present fields) := by
  rw [normalizeMembers_eq_map]
  induction fields with
  | nil => rfl
  | cons field rest ih =>
      obtain ⟨name, value⟩ := field
      cases value with
      | none => exact ih
      | some v => exact congrArg ((name, normalize v) :: ·) ih

/-- Only the names of the fields that have a value shadow parked nulls. -/
theorem unshadowed_normalFields (fields : List (String × Option Json))
    (extra : Members Json) :
    unshadowed (normalFields fields) extra = unshadowed fields extra := by
  unfold unshadowed
  rw [present_normalFields, normalizeMembers_eq_map]
  simp only [List.any_map, Function.comp_def]

theorem normalize_ofNullKeeping (fields : List (String × Option Json))
    (extra : Members Json) :
    (ofNullKeeping fields extra).normalize =
      .object (Members.ofList (present (normalFields fields) ++
        normalizeMembers (unshadowed (normalFields fields) extra))) := by
  rw [ofNullKeeping, ofOpen, normalize_ofList, present_normalFields,
    unshadowed_normalFields, normalizeMembers_eq_map, normalizeMembers_eq_map,
    normalizeMembers_eq_map, List.map_append]

/-- Records whose fields look alike do so too. -/
theorem normalize_ofNullKeeping_congr
    {fields others : List (String × Option Json)}
    (h : normalFields fields = normalFields others) (extra : Members Json) :
    (ofNullKeeping fields extra).normalize =
      (ofNullKeeping others extra).normalize := by
  rw [normalize_ofNullKeeping, normalize_ofNullKeeping, h]

theorem canonicalText_congr {u v : Json} (h : u.normalize = v.normalize) :
    u.canonicalText = v.canonicalText := by
  rw [canonicalText, canonicalText, h]

theorem canonicalBytes_congr {u v : Json} (h : u.normalize = v.normalize) :
    u.canonicalBytes = v.canonicalBytes := by
  rw [canonicalBytes, canonicalBytes, canonicalText_congr h]

/-! ## Texts in the order of their digests -/

/-- Two of the values have different canonical texts with one digest. -/
def Clash (vs : List Json) : Prop :=
  ∃ u ∈ vs, ∃ v ∈ vs, u.canonicalText ≠ v.canonicalText ∧ u.digest = v.digest

instance (vs : List Json) : Decidable (Clash vs) :=
  inferInstanceAs (Decidable (∃ u ∈ vs, ∃ v ∈ vs,
    u.canonicalText ≠ v.canonicalText ∧ u.digest = v.digest))

theorem digest_normalize (v : Json) : v.normalize.digest = v.digest :=
  congrArg sha3 (canonicalBytes_congr v.normalize_normalize)

end Json

/-- Things in any order look alike when they are sorted by digest, unless two of
them clash. -/
theorem normalize_sortByDigest {α : Type} {json : α → Json}
    {items others : List α} (hPerm : items.Perm others)
    (hFree : ¬ Json.Clash (items.map json)) :
    (sortByDigest json items).map (fun item => (json item).normalize) =
      (sortByDigest json others).map fun item => (json item).normalize := by
  have hSorted (xs : List α) :
      ((sortByDigest json xs).map fun item => (json item).normalize).Pairwise
        fun u v => u.digest.le v.digest = true := by
    rw [List.pairwise_map]
    simp only [Json.digest_normalize]
    exact pairwise_sortByDigest json xs
  have hSame : (sortByDigest json items).Perm (sortByDigest json others) :=
    (perm_sortByDigest json items).trans
      (hPerm.trans (perm_sortByDigest json others).symm)
  refine List.Perm.eq_of_pairwise ?_ (hSorted items) (hSorted others)
    (hSame.map _)
  intro u v hu hv huv hvu
  obtain ⟨a, ha, rfl⟩ := List.mem_map.mp hu
  obtain ⟨b, hb, rfl⟩ := List.mem_map.mp hv
  have ha := (perm_sortByDigest json items).mem_iff.mp ha
  have hb := hPerm.mem_iff.mpr ((perm_sortByDigest json others).mem_iff.mp hb)
  have hDigest : (json a).digest = (json b).digest := by
    rw [← Json.digest_normalize (json a), ← Json.digest_normalize (json b)]
    exact Word.le_antisymm huv hvu
  refine Json.eq_of_canonicalText_eq
    (Decidable.byContradiction fun hText => hFree ?_)
  exact ⟨json a, List.mem_map_of_mem ha, json b, List.mem_map_of_mem hb,
    hText, hDigest⟩

/-! ## Objects -/

namespace GraphObject

/-- Nothing that is hashed tells two objects apart. -/
structure Alike (o o' : GraphObject) : Prop where
  id : o.id = o'.id
  json : o.json.normalize = o'.json.normalize
  summary : o.summary.normalize = o'.summary.normalize
  relationCount : o.relationCount = o'.relationCount

theorem normalize_summary (o : GraphObject) :
    o.summary.normalize = .object (Members.ofList [("@id", .string o.id),
      ("identifiers", .array ((o.identifiers.getD []).map Json.normalize))]) :=
  by
  rw [summary, Json.ofFields, Json.normalize_ofList]
  simp only [Json.normalizeMembers, Json.normalize, Json.normalizeItems_eq_map]

/-- The relations as they are written. -/
def shownRelations (o : GraphObject) : Option (List Json) :=
  o.relations.map fun relations => relations.map fun r => r.json.normalize

/-- The identifiers as they are written. -/
def shownIdentifiers (o : GraphObject) : Option (List Json) :=
  o.identifiers.map fun identifiers => identifiers.map Json.normalize

theorem normalFields_json (o : GraphObject) :
    Json.normalFields [("@id", if o.id = "" then none else some (.string o.id)),
        ("@type", o.type.map .string),
        ("identifiers", o.identifiers.map .array),
        ("properties", o.properties.map .object),
        ("relations", o.relations.map fun relations =>
          .array (relations.map Relation.json))] =
      [("@id", (if o.id = "" then none else some (Json.string o.id)).map
        Json.normalize),
        ("@type", (o.type.map Json.string).map Json.normalize),
        ("identifiers", o.shownIdentifiers.map .array),
        ("properties", (o.properties.map Json.object).map Json.normalize),
        ("relations", o.shownRelations.map .array)] := by
  have hIdentifiers : (o.identifiers.map Json.array).map Json.normalize =
      o.shownIdentifiers.map .array := by
    rw [shownIdentifiers]
    cases o.identifiers with
    | none => rfl
    | some identifiers =>
        rw [Option.map_some, Option.map_some, Json.normalize,
          Json.normalizeItems_eq_map]
        rfl
  have hRelations : (o.relations.map fun relations =>
      Json.array (relations.map Relation.json)).map Json.normalize =
        o.shownRelations.map .array := by
    rw [shownRelations]
    cases o.relations with
    | none => rfl
    | some relations =>
        rw [Option.map_some, Option.map_some, Json.normalize,
          Json.normalizeItems_eq_map, List.map_map]
        rfl
  simp only [Json.normalFields, List.map_cons, List.map_nil, hIdentifiers,
    hRelations]

/-- Objects that differ in their relations and identifiers only look alike if
these do. -/
theorem alike_of_shown {o o' : GraphObject}
    (hOthers :
      { o with relations := o'.relations, identifiers := o'.identifiers } = o')
    (hRelations : o.shownRelations = o'.shownRelations)
    (hIdentifiers : o.shownIdentifiers = o'.shownIdentifiers) : Alike o o' := by
  have hId : o.id = o'.id := by rw [← hOthers]
  have hType : o.type = o'.type := by rw [← hOthers]
  have hProperties : o.properties = o'.properties := by rw [← hOthers]
  have hExtra : o.extra = o'.extra := by rw [← hOthers]
  have hNone (p : GraphObject) : (p.identifiers.getD []).map Json.normalize =
      p.shownIdentifiers.getD [] := by
    rw [shownIdentifiers]
    cases p.identifiers <;> rfl
  have hCount (p : GraphObject) :
      p.relationCount = (p.shownRelations.getD []).length := by
    rw [relationCount, shownRelations]
    cases p.relations <;> simp
  constructor
  · exact hId
  · rw [json, json, ← hExtra]
    refine Json.normalize_ofNullKeeping_congr ?_ o.extra
    rw [normalFields_json, normalFields_json, hId, hType, hProperties,
      hRelations, hIdentifiers]
  · rw [normalize_summary, normalize_summary, hNone, hNone, hId, hIdentifiers]
  · rw [hCount, hCount, hRelations]

/-- The same object with its relations and its identifiers in another order. -/
structure Shuffled (o o' : GraphObject) : Prop where
  relations : Option.Rel List.Perm o.relations o'.relations
  identifiers : Option.Rel List.Perm o.identifiers o'.identifiers
  others :
    { o with relations := o'.relations, identifiers := o'.identifiers } = o'

/-- Two relations or two identifiers of an object have different texts with one
digest. -/
def Clashes (o : GraphObject) : Prop :=
  Json.Clash ((o.relations.getD []).map Relation.json) ∨
    Json.Clash (o.identifiers.getD [])

instance (o : GraphObject) : Decidable o.Clashes :=
  inferInstanceAs (Decidable (_ ∨ _))

/-- Things that may be missing look alike when they are sorted by digest. -/
theorem shown_sortByDigest {α : Type} {json : α → Json}
    {items others : Option (List α)} (h : Option.Rel List.Perm items others)
    (hFree : ¬ Json.Clash ((items.getD []).map json)) :
    (items.map (sortByDigest json)).map (fun found => found.map fun item =>
      (json item).normalize) =
        (others.map (sortByDigest json)).map
          fun found => found.map fun item => (json item).normalize := by
  cases h with
  | none => rfl
  | some hPerm => exact congrArg some (normalize_sortByDigest hPerm hFree)

/-- With its relations and identifiers sorted, a shuffled object looks as it did
before. -/
theorem alike_sortParts {o o' : GraphObject} (h : Shuffled o o')
    (hFree : ¬ o.Clashes) :
    Alike o.sortParts o'.sortParts := by
  obtain ⟨hRelationsFree, hIdentifiersFree⟩ := not_or.mp hFree
  rw [← List.map_id' (o.identifiers.getD [])] at hIdentifiersFree
  refine alike_of_shown ?_ (shown_sortByDigest h.relations hRelationsFree)
    (shown_sortByDigest h.identifiers hIdentifiersFree)
  conv_rhs => rw [← h.others]
  rfl

end GraphObject

/-! ## Graphs -/

section Graphs

open GraphObject

variable {graph others : List GraphObject} (h : List.Forall₂ Alike graph others)

include h

theorem map_congr_of_alike {α : Type} {f : GraphObject → α}
    (hf : ∀ o o', Alike o o' → f o = f o') : graph.map f = others.map f := by
  rw [← List.forall₂_eq_eq_eq, List.forall₂_map_left_iff,
    List.forall₂_map_right_iff]
  exact h.imp hf

/-- Graphs that look alike are written alike. -/
theorem normalize_graphJson_congr :
    (graphJson graph).normalize = (graphJson others).normalize := by
  rw [graphJson, graphJson, Json.normalize, Json.normalize,
    Json.normalizeItems_eq_map, Json.normalizeItems_eq_map, List.map_map,
    List.map_map]
  exact congrArg Json.array (map_congr_of_alike h fun _ _ hAlike => hAlike.json)

theorem relationTotal_congr : relationTotal graph = relationTotal others := by
  have hSum (objects : List GraphObject) :
      relationTotal objects = (objects.map relationCount).sum := by
    rw [relationTotal, List.length_flatMap]
    rfl
  rw [hSum, hSum, map_congr_of_alike h fun _ _ hAlike => hAlike.relationCount]

theorem normalize_summary_congr (datasetId : String) (creator : Creator) :
    (summary graph datasetId creator).normalize =
      (summary others datasetId creator).normalize := by
  rw [SealedGraph.normalize_summary, SealedGraph.normalize_summary,
    relationTotal_congr h, Json.normalizeItems_eq_map,
    Json.normalizeItems_eq_map, List.map_map, List.map_map]
  have hObjects :=
    map_congr_of_alike h (f := Json.normalize ∘ GraphObject.summary)
      fun _ _ hAlike => hAlike.summary
  rw [hObjects]

/-- Distributions of graphs that look alike have the same texts. -/
theorem Distribution.items_congr (datasetId : String) (creator : Creator) :
    (Distribution.ofGraph graph datasetId creator).items =
      (Distribution.ofGraph others datasetId creator).items := by
  rw [items_ofGraph, items_ofGraph,
    Json.canonicalBytes_congr (normalize_summary_congr h _ _),
    map_congr_of_alike h fun _ _ hAlike =>
      Json.canonicalBytes_congr hAlike.json]

/-- Documents whose graphs look alike when they are sorted have one canonical
text. -/
theorem Document.canonicalText_congr {given given' : List GraphObject}
    (hGraph : sortGraph given = graph) (hOthers : sortGraph given' = others)
    (d : Document) :
    { d with graph := given }.canonicalText =
      { d with graph := given' }.canonicalText := by
  show { d with graph := sortGraph given }.json.canonicalText =
    { d with graph := sortGraph given' }.json.canonicalText
  rw [hGraph, hOthers]
  refine Json.canonicalText_congr
    (Json.normalize_ofNullKeeping_congr ?_ d.extra)
  have hSame : (Json.array (graph.map GraphObject.json)).normalize =
      (Json.array (others.map GraphObject.json)).normalize :=
        normalize_graphJson_congr h
  simp only [Json.normalFields, List.map_cons, List.map_nil,
    Option.map_some, hSame]

end Graphs

end SealedGraph
