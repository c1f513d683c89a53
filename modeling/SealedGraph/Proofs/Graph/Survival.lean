import Mathlib
import SealedGraph.Proofs.Graph.DocumentRewriting
import SealedGraph.Proofs.Graph.Sorting
import SealedGraph.Proofs.Json.Unambiguous

/-!
# What survives writing and reading

A thing survives if it is written as a tidy value and read as itself again.
Whatever was read survives, and so does what is made of it by putting other
surviving parts in the place of its parts: no part that was there is taken
away, and none comes to stand beside a parked null.

## Main results

* `Survives.eq_of_canonicalText_eq`: the canonical text tells apart what
  survives.
* `survives_list`: a list survives if its items do.
* `GraphObject.survives_withProperties`, `GraphObject.survives_sortParts`:
  objects with changed parts.
* `Document.survives_withGraph`: documents with another graph.
* `Document.survives_of_parts`: documents that were built and not read.
-/

namespace SealedGraph

open Json

namespace Json

section Survives

variable {α : Type} {read : Json → Option α} {write : α → Json} {room : Nat}

/-- `x` is written as a tidy value, and read as itself again. -/
structure Survives (read : Json → Option α) (write : α → Json) (room : Nat)
    (x : α) : Prop where
  tidy : Tidy room (write x)
  read_write : read (write x) = some x

/-- Of things that survive, no two are written as one text. -/
theorem Survives.eq_of_canonicalText_eq {more : Nat} {x y : α}
    (hx : Survives read write room x) (hy : Survives read write more y)
    (h : (write x).canonicalText = (write y).canonicalText) :
    x = y := by
  have hWritten : write x = write y := by
    rw [← hx.tidy.normal, ← hy.tidy.normal]
    exact Json.eq_of_canonicalText_eq h
  have hRead := hx.read_write
  rw [hWritten, hy.read_write] at hRead
  exact (Option.some.inj hRead).symm

/-- Whatever is read by a faithful reader survives. -/
theorem Faithful.survives {least : Nat} (h : Faithful read write least)
    (hRoom : least ≤ room) {v : Json} {x : α} (hTidy : Tidy room v)
    (hRead : read v = some x) : Survives read write room x := by
  have hWritten := h hRoom hTidy hRead
  exact ⟨hWritten.tidy, hWritten.read_write⟩

theorem survives_string (text : String) : Survives string? .string room text :=
  ⟨.string room text, rfl⟩

/-- Things are read of what is written for others, if each of them is. -/
theorem mapM_map_eq_some_map {β γ δ : Type} {get : γ → Option δ} {put : β → γ}
    {make : β → δ} {xs : List β} :
    (xs.map put).mapM get = some (xs.map make) ↔
      ∀ x ∈ xs, get (put x) = some (make x) := by
  induction xs with
  | nil => simp
  | cons x xs ih =>
      rw [List.map_cons, List.mapM_cons, List.forall_mem_cons, ← ih]
      simp only [Option.bind_eq_bind, Option.bind_eq_some_iff]
      constructor
      · intro h
        obtain ⟨y, hy, ys, hys, hSame⟩ := h
        cases hSame
        exact ⟨hy, hys⟩
      · intro h
        exact ⟨make x, h.1, xs.map make, h.2, rfl⟩

theorem mapM_map_eq_some {β γ : Type} {get : γ → Option β} {put : β → γ}
    {xs : List β} :
    (xs.map put).mapM get = some xs ↔ ∀ x ∈ xs, get (put x) = some x := by
  have hAll : (xs.map put).mapM get = some (xs.map fun x => x) ↔
      ∀ x ∈ xs, get (put x) = some x :=
    mapM_map_eq_some_map
  rwa [List.map_id'] at hAll

/-- A list survives if, and only if, all of its items do. -/
theorem survives_list {xs : List α} :
    Survives (listOf? read) (fun xs => .array (xs.map write)) (room + 1) xs ↔
      ∀ x ∈ xs, Survives read write room x := by
  constructor
  · intro h x hx
    exact ⟨tidy_array.mp h.tidy _ (List.mem_map_of_mem hx),
      mapM_map_eq_some.mp h.read_write x hx⟩
  · intro h
    constructor
    · refine tidy_array.mpr fun item hItem => ?_
      obtain ⟨x, hx, rfl⟩ := List.mem_map.mp hItem
      exact (h x hx).tidy
    · exact mapM_map_eq_some.mpr fun x hx => (h x hx).read_write

/-- The order of a list does not matter. -/
theorem Survives.perm {xs ys : List α}
    (h : Survives (listOf? read) (fun xs => .array (xs.map write)) room xs)
    (hPerm : ys.Perm xs) :
    Survives (listOf? read) (fun xs => .array (xs.map write)) room ys := by
  obtain ⟨inner, rfl⟩ := h.tidy.exists_room_array
  exact survives_list.mpr fun y hy => survives_list.mp h y (hPerm.mem_iff.mp hy)

/-- A table survives if its values do. -/
theorem survives_table {xs : Members α} (hAscending : xs.Ascending)
    (h : ∀ x ∈ xs, Survives read write room x.2) :
    Survives (tableOf? read)
      (fun xs => .object (xs.map fun x => (x.1, write x.2))) (room + 1) xs := by
  constructor
  · refine tidy_object.mpr ⟨List.pairwise_map.mpr hAscending,
      fun member hMember => ?_⟩
    obtain ⟨x, hx, rfl⟩ := List.mem_map.mp hMember
    exact (h x hx).tidy
  · refine mapM_map_eq_some.mpr fun x hx => ?_
    rw [(h x hx).read_write]
    rfl

/-! ## Fields that are given other values -/

variable {nullable : List String} {members : Members Json} {name : String}
  {x : Option α}

/-- An optional field may be left without value. -/
theorem unset_field :
    Field nullable room members (fun ms => optional ms name read)
      (name, none) none :=
  ⟨⟨fit_none nullable, fun _ h => absurd rfl h⟩, optional_eq_none⟩

/-- An optional field that survives, for which no null is parked if it has a
value. -/
theorem field_of_survives
    (hx : ∀ a, x = some a → Survives read write room a ∧ write a ≠ .null)
    (hFree : name ∈ nullable → x ≠ none → members.lookup name ≠ some .null) :
    Field nullable room members (fun ms => optional ms name read)
      (name, x.map write) x := by
  cases x with
  | none => exact unset_field
  | some a =>
      obtain ⟨hSurvives, hNull⟩ := hx a rfl
      refine ⟨⟨fit_some nullable hSurvives.tidy fun _ => hNull,
        fun hName _ => ?_⟩, fun h => ?_⟩
      · exact hFree hName (Option.some_ne_none a)
      · exact optional_eq_some h hNull hSurvives.read_write

/-- An optional field that has a value may be given another one. -/
theorem Field.refill {f : α → α}
    (h : Field nullable room members (fun ms => optional ms name read)
      (name, x.map write) x)

    (hf : ∀ a, x = some a → Survives read write room (f a) ∧
      write (f a) ≠ .null) :
    Field nullable room members (fun ms => optional ms name read)
      (name, (x.map f).map write) (x.map f) := by
  refine field_of_survives (fun b hb => ?_) fun hName hSome => ?_
  · obtain ⟨a, ha, rfl⟩ := Option.map_eq_some_iff.mp hb
    exact hf a ha
  · exact h.unparked hName fun hNone => hSome (by cases x <;> simp_all)

/-- The value of an optional field that was taken survives. -/
theorem Field.survives_optional {a : α}
    (h : Field nullable room members (fun ms => optional ms name read)
      (name, x.map write) x)
    (ha : x = some a) : Survives read write room a := by
  subst ha
  refine ⟨h.tidy _ rfl, ?_⟩
  have hTold : Tells [(name, write a)] (name, some (write a)) :=
    .inl List.lookup_cons_self
  have hAgain := h.again hTold
  obtain ⟨v, hLookup, _, hRead⟩ := exists_of_optional hAgain
  rw [List.lookup_cons_self] at hLookup
  rw [Option.some.inj hLookup]
  exact hRead

variable {default a : α}

/-- A field with a default, of which no null is kept, may have any value that
survives. -/
theorem Survives.defaulted_field (h : Survives read write room a)
    (hName : name ∉ nullable) :
    Field nullable room members (fun ms => defaulted ms name read default)
      (name, some (write a)) a := by
  refine written_field nullable hName h.tidy
    (fun written hLookup => ?_) h.read_write
  rw [defaulted, hLookup]

/-- A field that must be there may have any value that survives. -/
theorem Survives.required_field (h : Survives read write room a)
    (hName : name ∉ nullable) :
    Field nullable room members (fun ms => required ms name read)
      (name, some (write a)) a := by
  refine written_field nullable hName h.tidy
    (fun written hLookup => ?_) h.read_write
  rw [required, hLookup, Option.bind_some]

theorem Field.survives_defaulted
    (h : Field nullable room members (fun ms => defaulted ms name read default)
      (name, some (write a)) a) : Survives read write room a := by
  refine ⟨h.tidy _ rfl, ?_⟩
  have hTold : Tells [(name, write a)] (name, some (write a)) :=
    .inl List.lookup_cons_self
  have hAgain := h.again hTold
  rw [defaulted, List.lookup_cons_self] at hAgain
  exact hAgain

end Survives

theorem Tidy.perm {items others : List Json} {room : Nat}
    (h : Tidy room (.array items)) (hPerm : others.Perm items) :
    Tidy room (.array others) := by
  obtain ⟨inner, rfl⟩ := h.exists_room_array
  exact tidy_array.mpr fun item hItem =>
    tidy_array.mp h item (hPerm.mem_iff.mp hItem)

end Json

/-! ## Objects with other parts -/

namespace GraphObject

variable {o : GraphObject} {room : Nat}

/-- The properties of an object may be others, if they take no more room. -/
theorem survives_withProperties (hRoom : 2 ≤ room)
    (h : Survives ofJson? json room o) {properties changed : Members Json}
    (hProperties : o.properties = some properties)

    (hTidy : ∀ inner, Tidy inner (.object properties) →
      Tidy inner (.object changed)) :
    Survives ofJson? json room { o with properties := some changed } := by
  obtain ⟨members, inner, hWritten, rfl, _, hFields, hExtra⟩ :=
    exists_fieldsOf hRoom h.tidy h.read_write
  have hField := hFields.properties
  rw [hProperties] at hField
  have hRefilled := hField.refill (f := fun _ => changed) fun _ _ =>
    ⟨⟨hTidy _ (hField.tidy _ rfl), rfl⟩, Json.noConfusion⟩
  have hChanged :
      FieldsOf { o with properties := some changed } members inner :=
    ⟨hFields.id, hFields.type, hFields.identifiers, hRefilled,
      hFields.relations⟩
  obtain ⟨hTidy, hRead⟩ := hChanged.rewritten (hWritten ▸ h.tidy) hExtra
  exact ⟨hTidy, hRead⟩

/-- The fields of an object that survives stand beside its other members. -/
theorem recorded_of_survives (hRoom : 2 ≤ room)
    (h : Survives ofJson? json room o) :
    Recorded fieldNames fieldNames o.fields o.extra := by
  obtain ⟨members, inner, hWritten, rfl, _, hFields, hExtra⟩ :=
    exists_fieldsOf hRoom h.tidy h.read_write
  exact (recorded_of_members fieldNames rfl (by decide) (fun _ hName => hName)
    (hWritten ▸ h.tidy) hFields.fit hExtra).1

/-- Relations and identifiers may stand in another order. -/
theorem survives_sortParts (hRoom : 2 ≤ room)
    (h : Survives ofJson? json room o) :
    Survives ofJson? json room o.sortParts := by
  obtain ⟨members, inner, hWritten, rfl, _, hFields, hExtra⟩ :=
    exists_fieldsOf hRoom h.tidy h.read_write
  have hIdentifiers := hFields.identifiers.refill
    (f := sortByDigest fun identifier => identifier) fun identifiers hSome =>
      ⟨⟨(hFields.identifiers.survives_optional hSome).tidy.perm
        (perm_sortByDigest _ identifiers), rfl⟩, Json.noConfusion⟩
  have hRelations := hFields.relations.refill (f := sortByDigest Relation.json)
    fun relations hSome => ⟨(hFields.relations.survives_optional hSome).perm
      (perm_sortByDigest Relation.json relations), Json.noConfusion⟩
  have hChanged : FieldsOf o.sortParts members inner :=
    ⟨hFields.id, hFields.type, hIdentifiers, hFields.properties, hRelations⟩
  obtain ⟨hTidy, hRead⟩ := hChanged.rewritten (hWritten ▸ h.tidy) hExtra
  exact ⟨hTidy, hRead⟩

end GraphObject

/-! ## Documents with other parts -/

namespace Document

variable {d : Document} {room : Nat}

/-- The fields of a document that survives stand beside its other members. -/
theorem recorded_of_survives (hRoom : 4 ≤ room)
    (h : Survives ofNormal? json room d) :
    Recorded fieldNames nullable d.fields d.extra := by
  obtain ⟨members, inner, hWritten, rfl, _, hFields, hExtra⟩ :=
    exists_fieldsOf hRoom h.tidy h.read_write
  refine (recorded_of_members order rfl (by decide) (by decide)
    (hWritten ▸ h.tidy) ?_ hExtra).1
  simp only [fields, List.forall_mem_cons]
  exact ⟨hFields.id.toFit, hFields.type.toFit, hFields.header.toFit,
    hFields.graph.toFit, hFields.signature.toFit, List.forall_mem_nil _⟩

/-- The objects of a document that survives do so themselves. -/
theorem survives_object (hRoom : 2 ≤ room)
    (h : Survives ofNormal? json (room + 2) d) :
    ∀ o ∈ d.graph, Survives GraphObject.ofJson? GraphObject.json room o := by
  obtain ⟨members, inner, _, hInner, _, hFields, _⟩ :=
    exists_fieldsOf (Nat.add_le_add_right hRoom 2) h.tidy h.read_write
  cases hInner
  exact survives_list.mp hFields.graph.survives_defaulted

/-- So does its header. -/
theorem survives_header (hRoom : 2 ≤ room)
    (h : Survives ofNormal? json (room + 2) d) {header : Header}
    (hHeader : d.header = some header) :
    Survives Header.ofJson? Header.json (room + 1) header := by
  obtain ⟨members, inner, _, hInner, _, hFields, _⟩ :=
    exists_fieldsOf (Nat.add_le_add_right hRoom 2) h.tidy h.read_write
  cases hInner
  exact hFields.header.survives_optional hHeader

/-- The graph of a document may be another one. -/
theorem survives_withGraph (hRoom : 2 ≤ room)
    (h : Survives ofNormal? json (room + 2) d) {graph : List GraphObject}

    (hGraph :
      ∀ o ∈ graph, Survives GraphObject.ofJson? GraphObject.json room o) :
    Survives ofNormal? json (room + 2) { d with graph := graph } := by
  obtain ⟨members, inner, hWritten, hInner, _, hFields, hExtra⟩ :=
    exists_fieldsOf (Nat.add_le_add_right hRoom 2) h.tidy h.read_write
  cases hInner
  have hChanged : FieldsOf { d with graph := graph } members (room + 1) :=
    ⟨hFields.id, hFields.type, hFields.header,
      (survives_list.mpr hGraph).defaulted_field (by decide), hFields.signature⟩
  obtain ⟨hTidy, hRead⟩ := hChanged.rewritten (hWritten ▸ h.tidy) hExtra
  exact ⟨hTidy, hRead⟩

/-- A document may be left without signature. -/
theorem survives_withoutSignature (hRoom : 2 ≤ room)
    (h : Survives ofNormal? json (room + 2) d) :
    Survives ofNormal? json (room + 2) { d with signature := none } := by
  obtain ⟨members, inner, hWritten, hInner, _, hFields, hExtra⟩ :=
    exists_fieldsOf (Nat.add_le_add_right hRoom 2) h.tidy h.read_write
  cases hInner
  have hChanged : FieldsOf { d with signature := none } members (room + 1) :=
    ⟨hFields.id, hFields.type, hFields.header, hFields.graph, unset_field⟩
  obtain ⟨hTidy, hRead⟩ := hChanged.rewritten (hWritten ▸ h.tidy) hExtra
  exact ⟨hTidy, hRead⟩

/-- A document without other members survives if its parts do. -/
theorem survives_of_parts (hRoom : 2 ≤ room) (hExtra : d.extra = [])
    (hHeader : ∀ header, d.header = some header →
      Survives Header.ofJson? Header.json (room + 1) header)
    (hGraph :
      ∀ o ∈ d.graph, Survives GraphObject.ofJson? GraphObject.json room o) :
    Survives ofNormal? json (room + 2) d := by
  have hFields : FieldsOf d [] (room + 1) := by
    constructor
    · exact field_of_survives
        (fun text _ => ⟨survives_string text, Json.noConfusion⟩) nofun
    · exact field_of_survives
        (fun text _ => ⟨survives_string text, Json.noConfusion⟩) nofun
    · exact field_of_survives
        (fun header h => ⟨hHeader header h, Json.noConfusion⟩) nofun
    · exact (survives_list.mpr hGraph).defaulted_field (by decide)
    · exact field_of_survives
        (fun s _ => ⟨⟨Signature.tidy_json (by omega) s, s.ofJson?_json⟩,
          Json.noConfusion⟩) nofun
  obtain ⟨hTidy, hRead⟩ := hFields.rewritten (tidy_blank (by omega)) hExtra.symm
  exact ⟨hTidy, hRead⟩

/-- Every document that was read from a text survives. -/
theorem survives_of_parse {text : String} (hRead : parse text = .ok d) :
    Survives ofNormal? json maxDepth d := by
  obtain ⟨v, _, hTidy, hv⟩ := parse_eq_ok.mp hRead
  exact faithful_ofNormal?.survives (by decide) hTidy hv

/-- Every document that was read from a value survives, be the value nested as
it may. -/
theorem survives_of_ofJson {v : Json} (hRead : ofJson v = .ok d) :
    Survives ofNormal? json (v.normalize.depth + 4) d := by
  have hTidy : Tidy (v.normalize.depth + 4) v.normalize :=
    ⟨normalize_normalize v, Nat.le_add_right _ 4⟩
  exact faithful_ofNormal?.survives (Nat.le_add_left 4 _) hTidy
    (ofJson_eq_ok.mp hRead)

/-- A document that survives is read from every text of its value. -/
theorem parse_of_survives (h : Survives ofNormal? json maxDepth d)
    {wire : String} (hWire : Json.parse? wire = some d.json) :
    parse wire = .ok d :=
  parse_eq_ok.mpr ⟨d.json, hWire, h.tidy, h.read_write⟩

end Document
end SealedGraph
