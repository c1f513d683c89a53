import Mathlib
import SealedGraph.Proofs.Private.Restoring

/-!
# Views of readable graphs

A view of a graph reads the items of all its private properties.  If each of
these is a list of entries, every change that refuses no entry is carried out,
and nothing changes but these items; if not, none is, and the graph is reported
to be malformed.

## Main results

* `readable_iff`: the entries of a graph are listed exactly when they can be
  read.
* `mapGraph_ok_iff_readable`: so is a change carried out that refuses no entry.
* `rewritten_of_mapGraph`: what it leaves as it is.
* `okOrMalformed_mapGraph`: where it is not carried out, the graph is malformed.
-/

namespace SealedGraph

/-! ## Refusals -/

/-- The result is a value, or tells why something is malformed. -/
def OkOrMalformed {α : Type} (result : Except Error α) : Prop :=
  (∃ value, result = .ok value) ∨ ∃ cause, result = .error (.malformed cause)

section OkOrMalformed

variable {α β : Type}

theorem okOrMalformed_ok (value : α) : OkOrMalformed (.ok value) :=
  .inl ⟨value, rfl⟩

theorem okOrMalformed_error (cause : Malformed) :
    OkOrMalformed (α := α) (.error (.malformed cause)) :=
  .inr ⟨cause, rfl⟩

theorem OkOrMalformed.bind {result : Except Error α} (h : OkOrMalformed result)
    {f : α → Except Error β} (hf : ∀ value, OkOrMalformed (f value)) :
    OkOrMalformed (result >>= f) := by
  rcases h with ⟨value, rfl⟩ | ⟨cause, rfl⟩
  · exact hf value
  · exact okOrMalformed_error cause

theorem okOrMalformed_mapM {f : α → Except Error β}
    (hf : ∀ x, OkOrMalformed (f x)) (xs : List α) :
    OkOrMalformed (xs.mapM f) := by
  induction xs with
  | nil => exact okOrMalformed_ok []
  | cons x xs ih =>
      rw [List.mapM_cons]
      exact (hf x).bind fun y => ih.bind fun ys => okOrMalformed_ok (y :: ys)

end OkOrMalformed

namespace Committer

/-! ## Readable graphs -/

/-- The value of a private property is a list of entries. -/
def ReadableProperty (c : Committer) (property : String × Json) : Prop :=
  c.privacy.isPrivate property.1 = true →
    ∃ vs, property.2 = .array vs ∧ ∀ v ∈ vs, ∃ e,
    PrivateEntry.ofJson? v = some e

/-- So it is for all private properties of all objects. -/
def Readable (c : Committer) (graph : List GraphObject) : Prop :=
  ∀ o ∈ graph, ∀ properties, o.properties = some properties →
    ∀ property ∈ properties, c.ReadableProperty property

section Readable

variable {c : Committer}

theorem exists_listEntries_iff {objectId property : String} {vs : List Json}
    {index : Nat} :
    (∃ found, listEntries objectId property index vs = .ok found) ↔
      ∀ v ∈ vs, ∃ e, PrivateEntry.ofJson? v = some e := by
  induction vs generalizing index with
  | nil => simp [listEntries]
  | cons v vs ih =>
      rw [List.forall_mem_cons, ← @ih (index + 1)]
      simp only [listEntries, bind_eq_ok, readEntry_eq_ok]
      constructor
      · rintro ⟨_, e, he, others, hOthers, _⟩
        exact ⟨⟨e, he⟩, others, hOthers⟩
      · rintro ⟨⟨e, he⟩, others, hOthers⟩
        exact ⟨_, e, he, others, hOthers, rfl⟩

theorem exists_propertyEntries_iff {objectId : String}
    {property : String × Json} :
    (∃ found, c.propertyEntries objectId property = .ok found) ↔
      c.ReadableProperty property := by
  simp only [propertyEntries_eq_ok]
  constructor
  · rintro ⟨found, ⟨hPublic, _⟩ | ⟨_, vs, hArray, hList⟩⟩ hPrivate
    · exact absurd hPrivate hPublic
    · exact ⟨vs, hArray, exists_listEntries_iff.mp ⟨found, hList⟩⟩
  · intro h
    by_cases hPrivate : c.privacy.isPrivate property.1 = true
    · obtain ⟨vs, hArray, hItems⟩ := h hPrivate
      obtain ⟨found, hFound⟩ := exists_listEntries_iff.mpr hItems
      exact ⟨found, .inr ⟨hPrivate, vs, hArray, hFound⟩⟩
    · exact ⟨[], .inl ⟨hPrivate, rfl⟩⟩

theorem exists_objectEntries_iff {o : GraphObject} :
    (∃ found, c.objectEntries o = .ok found) ↔
      ∀ properties, o.properties = some properties →
        ∀ property ∈ properties, c.ReadableProperty property := by
  simp only [objectEntries_eq_ok]
  constructor
  · rintro ⟨_, ⟨hNone, _⟩ | ⟨_, lists, hSome, hLists, _⟩⟩
      properties hGiven property hMem
    · cases hNone.symm.trans hGiven
    · cases hSome.symm.trans hGiven
      exact exists_propertyEntries_iff.mp
        (exists_mapM_iff.mp ⟨lists, hLists⟩ property hMem)
  · intro h
    cases hProperties : o.properties with
    | none => exact ⟨[], .inl ⟨rfl, rfl⟩⟩
    | some properties =>
        obtain ⟨lists, hLists⟩ :
          ∃ lists, properties.mapM (c.propertyEntries o.id) = .ok lists :=
          exists_mapM_iff.mpr fun property hMem =>
            exists_propertyEntries_iff.mpr
              (h properties hProperties property hMem)
        exact ⟨_, .inr ⟨properties, lists, rfl, hLists, rfl⟩⟩

/-- The entries of a graph are listed exactly when they can be read. -/
theorem readable_iff {graph : List GraphObject} :
    c.Readable graph ↔ ∃ entries, c.entries graph = .ok entries := by
  have hObjects : (∃ lists, graph.mapM c.objectEntries = .ok lists) ↔
      c.Readable graph := by
    rw [exists_mapM_iff]
    exact forall₂_congr fun o _ => exists_objectEntries_iff
  rw [← hObjects]
  simp only [entries_eq_ok]
  exact ⟨fun ⟨lists, h⟩ => ⟨_, lists, h, rfl⟩,
    fun ⟨_, lists, h, _⟩ => ⟨lists, h⟩⟩

/-- A change that refuses no entry is carried out exactly when the entries can
be read. -/
theorem mapGraph_ok_iff_readable
    {change : Slot → PrivateEntry → Except Error PrivateEntry}
    (hTotal : ∀ slot entry, ∃ changed, change slot entry = .ok changed)
    (graph : List GraphObject) :
    (∃ changed, graph.mapM (c.mapObject change) = .ok changed) ↔
      c.Readable graph :=
  (mapGraph_ok_iff hTotal graph).trans readable_iff.symm

end Readable

/-! ## Objects with other items -/

/-- A private property is a list of which the items are rewritten, one by one;
any other one is as it was. -/
structure PropertyRewritten (c : Committer) (item : Json → Json → Prop)
    (property rewritten : String × Json) : Prop where
  name : rewritten.1 = property.1
  kept : ¬ c.privacy.isPrivate property.1 = true → rewritten = property
  items : c.privacy.isPrivate property.1 = true →
    ∃ vs ws, property.2 = .array vs ∧ rewritten.2 = .array ws ∧
    List.Forall₂ item vs ws

/-- Nothing of an object differs but the items of its private properties. -/
structure ObjectRewritten (c : Committer) (item : Json → Json → Prop)
    (o rewritten : GraphObject) : Prop where
  kept : rewritten = { o with properties := rewritten.properties }
  properties :
    Option.Rel (List.Forall₂ (c.PropertyRewritten item))
      o.properties rewritten.properties

section Rewritten

variable {c : Committer}
  {change : Slot → PrivateEntry → Except Error PrivateEntry}
  {item : String → Json → Json → Prop}
  (hItem : ∀ slot v w, changeJson change slot v = .ok w →
    item slot.objectId v w)

include hItem

theorem rewritten_of_mapEntries {objectId property : String} {vs ws : List Json}
    {index : Nat} (h : mapEntries change objectId property index vs = .ok ws) :
    List.Forall₂ (item objectId) vs ws := by
  induction vs generalizing index ws with
  | nil =>
      cases h
      exact .nil
  | cons v vs ih =>
      simp only [mapEntries_cons, bind_eq_ok] at h
      obtain ⟨w, hFirst, others, hOthers, hAll⟩ := h
      cases hAll
      exact .cons (hItem ⟨objectId, property, index⟩ v w hFirst) (ih hOthers)

theorem rewritten_of_mapProperty {objectId : String}
    {property rewritten : String × Json}
    (h : c.mapProperty change objectId property = .ok rewritten) :
    c.PropertyRewritten (item objectId) property rewritten := by
  rcases mapProperty_eq_ok.mp h with ⟨hPublic, rfl⟩ | ⟨hPrivate, vs, ws, hArray,
    hEntries, rfl⟩
  · exact ⟨rfl, fun _ => rfl, fun hPrivate => absurd hPrivate hPublic⟩
  · refine ⟨rfl, fun hPublic => absurd hPrivate hPublic,
      fun _ => ⟨vs, ws, hArray, rfl, ?_⟩⟩
    exact rewritten_of_mapEntries hItem hEntries

theorem rewritten_of_mapObject {o rewritten : GraphObject}
    (h : c.mapObject change o = .ok rewritten) :
    c.ObjectRewritten (item o.id) o rewritten := by
  rcases mapObject_eq_ok.mp h with ⟨hNone, rfl⟩ | ⟨properties, others, hSome,
    hOthers, rfl⟩
  · refine ⟨rfl, ?_⟩
    rw [hNone]
    exact .none
  · refine ⟨rfl, ?_⟩
    rw [hSome]
    exact .some ((mapM_eq_ok.mp hOthers).imp fun _ _ =>
      rewritten_of_mapProperty hItem)

/-- What a view makes of a graph are its objects, of which nothing differs but
the items of private properties. -/
theorem rewritten_of_mapGraph {graph changed : List GraphObject}
    (h : graph.mapM (c.mapObject change) = .ok changed) :
    List.Forall₂ (fun o => c.ObjectRewritten (item o.id) o) graph changed :=
  (mapM_eq_ok.mp h).imp fun _ _ => rewritten_of_mapObject hItem

end Rewritten

/-! ## Refused views -/

theorem okOrMalformed_readEntry (slot : Slot) (v : Json) :
    OkOrMalformed (readEntry slot v) := by
  unfold readEntry
  cases PrivateEntry.read v with
  | error cause => exact okOrMalformed_error (.entry slot cause)
  | ok e => exact okOrMalformed_ok e

section View

variable {c : Committer}
  {change : Slot → PrivateEntry → Except Error PrivateEntry}
  (hChange : ∀ slot e, OkOrMalformed (change slot e))

include hChange

theorem okOrMalformed_mapEntries (objectId property : String) (index : Nat)
    (vs : List Json) :
    OkOrMalformed (mapEntries change objectId property index vs) := by
  induction vs generalizing index with
  | nil => exact okOrMalformed_ok []
  | cons v vs ih =>
      rw [mapEntries]
      refine (okOrMalformed_readEntry _ v).bind fun e =>
        (hChange _ e).bind fun e' => ?_
      exact (ih (index + 1)).bind fun ws => okOrMalformed_ok _

theorem okOrMalformed_mapProperty (objectId : String)
    (property : String × Json) :
    OkOrMalformed (c.mapProperty change objectId property) := by
  obtain ⟨name, value⟩ := property
  unfold mapProperty
  by_cases hPrivate : c.privacy.isPrivate name
  · rw [if_pos hPrivate]
    cases value with
    | array vs =>
        exact (okOrMalformed_mapEntries hChange objectId name 0 vs).bind
          fun ws =>
          okOrMalformed_ok _
    | _ => exact okOrMalformed_error _
  · rw [if_neg hPrivate]
    exact okOrMalformed_ok _

theorem okOrMalformed_mapObject (o : GraphObject) :
    OkOrMalformed (c.mapObject change o) := by
  unfold mapObject
  cases o.properties with
  | none => exact okOrMalformed_ok o
  | some properties =>
      refine (okOrMalformed_mapM (okOrMalformed_mapProperty hChange o.id)
        properties).bind
        fun others => ?_
      exact okOrMalformed_ok _

/-- A change that does no worse is refused only to a malformed graph. -/
theorem okOrMalformed_mapGraph (graph : List GraphObject) :
    OkOrMalformed (graph.mapM (c.mapObject change)) :=
  okOrMalformed_mapM (okOrMalformed_mapObject hChange) graph

end View

end Committer
end SealedGraph
