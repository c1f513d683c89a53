import SealedGraph.Proofs.Private.Views

/-!
# Putting data back

A change of entries that refuses none of them is carried out on every graph
whose private entries can be read.  Putting data back is such a change, so all
that it needs besides is a hash of the data and an entry that is committed to
it.

## Main results

* `exists_entries`: where a change of entries was carried out, they can be read.
* `mapGraph_ok_iff`: a change that refuses none succeeds where they can be read.
* `restoreGraph_eq_ok`, `restoreGraph_ok_iff`: what restoring does, and when
  data can be put back.
-/

namespace SealedGraph.Committer

/-! ## Changes and readable entries -/

/-- A list of things succeeds exactly when each of them does. -/
theorem exists_mapM_iff {α β : Type} {f : α → Except Error β} {xs : List α} :
    (∃ ys, xs.mapM f = .ok ys) ↔ ∀ x ∈ xs, ∃ y, f x = .ok y := by
  induction xs with
  | nil => simp [pure, Except.pure]
  | cons x xs ih =>
      rw [List.forall_mem_cons, ← ih]
      simp only [List.mapM_cons, bind_eq_ok]
      constructor
      · rintro ⟨_, y, hy, ys, hys, _⟩
        exact ⟨⟨y, hy⟩, ys, hys⟩
      · rintro ⟨⟨y, hy⟩, ys, hys⟩
        exact ⟨y :: ys, y, hy, ys, hys, rfl⟩

/-- A function that succeeds on whatever another one does succeeds on lists of
these things. -/
theorem exists_mapM {α β γ : Type} {f : α → Except Error β}
    {g : α → Except Error γ} (h : ∀ x y, f x = .ok y → ∃ z, g x = .ok z)
    {xs : List α} {ys : List β} (hf : xs.mapM f = .ok ys) :
    ∃ zs, xs.mapM g = .ok zs := by
  apply exists_mapM_iff.mpr
  intro x hx
  obtain ⟨y, hy⟩ := exists_mapM_iff.mp ⟨ys, hf⟩ x hx
  exact h x y hy

section Readable

variable {c : Committer}
  {change : Slot → PrivateEntry → Except Error PrivateEntry}

/-- The entries of a private property are listed, which must be a list; any
other one has none. -/
theorem propertyEntries_eq_ok {objectId : String} {property : String × Json}
    {found : List (Slot × PrivateEntry)} :
    c.propertyEntries objectId property = .ok found ↔
      (¬ c.privacy.isPrivate property.1 ∧ [] = found) ∨
      (c.privacy.isPrivate property.1 ∧ ∃ vs, property.2 = .array vs ∧
        listEntries objectId property.1 0 vs = .ok found) := by
  obtain ⟨name, value⟩ := property
  unfold propertyEntries
  by_cases hPrivate : c.privacy.isPrivate name
  · cases value <;> simp [hPrivate]
  · simp [hPrivate]

theorem objectEntries_eq_ok {o : GraphObject}
    {found : List (Slot × PrivateEntry)} :
    c.objectEntries o = .ok found ↔ (o.properties = none ∧ [] = found) ∨
      ∃ properties lists, o.properties = some properties ∧
        properties.mapM (c.propertyEntries o.id) = .ok lists ∧
          lists.flatten = found := by
  unfold objectEntries
  cases o.properties with
  | none => simp
  | some properties =>
      rw [bind_eq_ok]
      constructor
      · intro h
        obtain ⟨lists, hLists, hFound⟩ := h
        exact .inr ⟨properties, lists, rfl, hLists, Except.ok.inj hFound⟩
      · rintro (⟨hNone, _⟩ | ⟨_, lists, hSome, hLists, hFound⟩)
        · cases hNone
        · cases hSome
          exact ⟨lists, hLists, congrArg Except.ok hFound⟩

theorem entries_eq_ok {graph : List GraphObject}
    {found : List (Slot × PrivateEntry)} :
    c.entries graph = .ok found ↔
      ∃ lists, graph.mapM c.objectEntries = .ok lists ∧
        lists.flatten = found := by
  unfold entries
  rw [bind_eq_ok]
  refine exists_congr fun lists => and_congr_right fun _ => ?_
  exact ⟨Except.ok.inj, congrArg Except.ok⟩

theorem exists_listEntries {objectId property : String} {vs ws : List Json}
    {index : Nat} (h : mapEntries change objectId property index vs = .ok ws) :
    ∃ entries, listEntries objectId property index vs = .ok entries := by
  induction vs generalizing index ws with
  | nil => exact ⟨[], rfl⟩
  | cons v vs ih =>
      simp only [mapEntries, listEntries, bind_eq_ok] at h ⊢
      obtain ⟨entry, hRead, _, _, others, hRest, _⟩ := h
      obtain ⟨entries, hEntries⟩ := ih hRest
      exact ⟨_, entry, hRead, entries, hEntries, rfl⟩

theorem exists_propertyEntries {objectId : String}
    (property changed : String × Json)
    (h : c.mapProperty change objectId property = .ok changed) :
    ∃ entries, c.propertyEntries objectId property = .ok entries := by
  rcases mapProperty_eq_ok.mp h with ⟨hPublic, _⟩ | ⟨hPrivate, vs, ws, hArray,
    hEntries, _⟩
  · exact ⟨[], propertyEntries_eq_ok.mpr (.inl ⟨hPublic, rfl⟩)⟩
  · obtain ⟨found, hFound⟩ := exists_listEntries hEntries
    exact ⟨found,
      propertyEntries_eq_ok.mpr (.inr ⟨hPrivate, vs, hArray, hFound⟩)⟩

theorem exists_objectEntries (o changed : GraphObject)
    (h : c.mapObject change o = .ok changed) :
    ∃ entries, c.objectEntries o = .ok entries := by
  rcases mapObject_eq_ok.mp h with ⟨hNone, _⟩ | ⟨properties, others, hSome,
    hOthers, _⟩
  · exact ⟨[], objectEntries_eq_ok.mpr (.inl ⟨hNone, rfl⟩)⟩
  · obtain ⟨lists, hLists⟩ := exists_mapM exists_propertyEntries hOthers
    exact ⟨_,
      objectEntries_eq_ok.mpr (.inr ⟨properties, lists, hSome, hLists, rfl⟩)⟩

/-- Where a change was carried out, the entries can be read. -/
theorem exists_entries {graph changed : List GraphObject}
    (h : graph.mapM (c.mapObject change) = .ok changed) :
    ∃ entries, c.entries graph = .ok entries := by
  obtain ⟨lists, hLists⟩ := exists_mapM exists_objectEntries h
  exact ⟨_, entries_eq_ok.mpr ⟨lists, hLists, rfl⟩⟩

end Readable

section Total

variable {c : Committer}
  {change : Slot → PrivateEntry → Except Error PrivateEntry}
  (hTotal : ∀ slot entry, ∃ changed, change slot entry = .ok changed)

include hTotal

theorem exists_mapEntries {objectId property : String} {vs : List Json}
    {index : Nat} {entries : List (Slot × PrivateEntry)}
    (h : listEntries objectId property index vs = .ok entries) :
    ∃ ws, mapEntries change objectId property index vs = .ok ws := by
  induction vs generalizing index entries with
  | nil => exact ⟨[], rfl⟩
  | cons v vs ih =>
      simp only [mapEntries, listEntries, bind_eq_ok] at h ⊢
      obtain ⟨entry, hRead, others, hOthers, _⟩ := h
      obtain ⟨changed, hChanged⟩ := hTotal ⟨objectId, property, index⟩ entry
      obtain ⟨ws, hRest⟩ := ih hOthers
      exact ⟨_, entry, hRead, changed, hChanged, ws, hRest, rfl⟩

theorem exists_mapProperty {objectId : String} (property : String × Json)
    (entries : List (Slot × PrivateEntry))
    (h : c.propertyEntries objectId property = .ok entries) :
    ∃ changed, c.mapProperty change objectId property = .ok changed := by
  rcases propertyEntries_eq_ok.mp h with ⟨hPublic, _⟩ | ⟨hPrivate, vs,
    hArray, hList⟩
  · exact ⟨property, mapProperty_eq_ok.mpr (.inl ⟨hPublic, rfl⟩)⟩
  · obtain ⟨ws, hChanged⟩ := exists_mapEntries hTotal hList
    exact ⟨_,
      mapProperty_eq_ok.mpr (.inr ⟨hPrivate, vs, ws, hArray, hChanged, rfl⟩)⟩

theorem exists_mapObject (o : GraphObject)
    (entries : List (Slot × PrivateEntry))
    (h : c.objectEntries o = .ok entries) :
    ∃ changed, c.mapObject change o = .ok changed := by
  rcases objectEntries_eq_ok.mp h with ⟨hNone, _⟩ | ⟨properties, lists, hSome,
    hLists, _⟩
  · exact ⟨o, mapObject_eq_ok.mpr (.inl ⟨hNone, rfl⟩)⟩
  · obtain ⟨others, hOthers⟩ :=
      exists_mapM (exists_mapProperty (c := c) hTotal) hLists
    exact ⟨_,
      mapObject_eq_ok.mpr (.inr ⟨properties, others, hSome, hOthers, rfl⟩)⟩

/-- A change that refuses no entry is carried out wherever the entries can be
read. -/
theorem mapGraph_ok_iff (graph : List GraphObject) :
    (∃ changed, graph.mapM (c.mapObject change) = .ok changed) ↔
      ∃ entries, c.entries graph = .ok entries := by
  constructor
  · intro h
    obtain ⟨changed, hChanged⟩ := h
    exact exists_entries hChanged
  · intro h
    obtain ⟨_, hEntries⟩ := h
    obtain ⟨lists, hLists, _⟩ := entries_eq_ok.mp hEntries
    exact exists_mapM (exists_mapObject hTotal) hLists

end Total

/-- Where there is a public view, there is one for a holder. -/
theorem exists_hideGraph_of_stripGraph {c : Committer}
    {graph stripped : List GraphObject}
    (h : c.stripGraph graph = .ok stripped) :
    ∃ hidden, c.hideGraph graph = .ok hidden :=
  (mapGraph_ok_iff (fun _ _ => ⟨_, rfl⟩) graph).mpr (exists_entries h)

/-! ## Restoring -/

/-- Data and flag are put into an entry of an object that is committed to the
data. -/
def restoreAt (objectId : String) (hash : Word) (data : Json) (slot : Slot)
    (entry : PrivateEntry) :
    Except Error PrivateEntry :=
  .ok (if isCommittedAs objectId hash slot entry then
    { entry.withData data with flag := some true } else entry)

/-- Restoring visits all entries, one of which must be committed to the data in
the object. -/
theorem restoreGraph_eq_ok {c : Committer} {graph restored : List GraphObject}
    {objectId : String} {data : Json} :
    c.restoreGraph graph objectId data = .ok restored ↔
      ∃ hash entries, c.hash (.new data) = .ok hash ∧
        c.entries graph = .ok entries ∧
        graph.mapM (c.mapObject (restoreAt objectId hash data)) = .ok restored ∧
        ∃ found ∈ entries,
          isCommittedAs objectId hash found.1 found.2 = true := by
  simp only [restoreGraph, bind_eq_ok]
  constructor
  · intro h
    obtain ⟨hash, hHash, changed, hChanged, entries, hEntries, hRestored⟩ := h
    split at hRestored
    · next hAny =>
      cases hRestored
      exact ⟨hash, entries, hHash, hEntries, hChanged, List.any_eq_true.mp hAny⟩
    · cases hRestored
  · intro h
    obtain ⟨hash, entries, hHash, hEntries, hChanged, hFound⟩ := h
    refine ⟨hash, hHash, restored, hChanged, entries, hEntries, ?_⟩
    rw [if_pos (List.any_eq_true.mpr hFound)]
    rfl

/-- Data are put back into every graph with readable entries, one of which is
committed to them in the object. -/
theorem restoreGraph_ok_iff {c : Committer} {graph : List GraphObject}
    {objectId : String} {data : Json} :
    (∃ restored, c.restoreGraph graph objectId data = .ok restored) ↔
      ∃ hash entries, c.hash (.new data) = .ok hash ∧
        c.entries graph = .ok entries ∧
        ∃ found ∈ entries,
          isCommittedAs objectId hash found.1 found.2 = true := by
  simp only [restoreGraph_eq_ok]
  constructor
  · intro h
    obtain ⟨_, hash, entries, hHash, hEntries, _, hFound⟩ := h
    exact ⟨hash, entries, hHash, hEntries, hFound⟩
  · intro h
    obtain ⟨hash, entries, hHash, hEntries, hFound⟩ := h
    obtain ⟨restored, hRestored⟩ :
        ∃ restored, graph.mapM (c.mapObject (restoreAt objectId hash data)) =
          .ok restored :=
      (mapGraph_ok_iff (fun _ _ => ⟨_, rfl⟩) graph).mpr ⟨entries, hEntries⟩
    exact ⟨restored, hash, entries, hHash, hEntries, hRestored, hFound⟩

end SealedGraph.Committer
