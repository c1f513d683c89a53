import Mathlib
import SealedGraph.Proofs.Private.Restoring

/-!
# Committed entries

An entry is committed if it has a hash, which is that of its data if it has
any.  Committing makes such entries and leaves them as they are; taking data
away and putting them back does not change that.  So whatever has been done to
the entries of a graph since they were committed to, committing again does
nothing.

The entries of a view stand in the slots of the entries that they were made of,
so that an entry can be followed through all views of a graph.

## Main results

* `mem_entries`: which entries a graph has.
* `entries_of_view`: the entries of a view, one by one.
* `commitAt_of_committed`, `committed_of_commitAt`: committed entries are those
  that stay.
* `commitGraph_of_view`, `commitGraph_of_committed`: when there is nothing left
  to commit to.
-/

namespace SealedGraph.Committer

/-! ## The entries of a graph -/

section Listing

variable {c : Committer} {slot : Slot} {e : PrivateEntry}

/-- What is in one of the lists that were found for some things. -/
theorem mem_flatten_of_mapM {α β : Type} {f : α → Except Error (List β)} {y : β}
    {P : α → Prop} (hP : ∀ {x list}, f x = .ok list → (y ∈ list ↔ P x))
    {xs : List α} {lists : List (List β)} (h : xs.mapM f = .ok lists) :
    y ∈ lists.flatten ↔ ∃ x ∈ xs, P x := by
  induction xs generalizing lists with
  | nil =>
      cases h
      simp
  | cons x xs ih =>
      simp only [List.mapM_cons, bind_eq_ok] at h
      obtain ⟨list, hList, rest, hRest, hLists⟩ := h
      cases hLists
      rw [List.flatten_cons, List.mem_append, ih hRest, hP hList,
        List.exists_mem_cons_iff]

theorem mem_listEntries {objectId property : String} {vs : List Json}
    {index : Nat} {found : List (Slot × PrivateEntry)}
    (h : listEntries objectId property index vs = .ok found) :
    (slot, e) ∈ found ↔ ∃ i v, vs[i]? = some v ∧
      PrivateEntry.ofJson? v = some e ∧
      slot = ⟨objectId, property, index + i⟩ := by
  induction vs generalizing index found with
  | nil =>
      cases h
      simp
  | cons v vs ih =>
      simp only [listEntries, bind_eq_ok, readEntry_eq_ok] at h
      obtain ⟨first, hRead, others, hOthers, hFound⟩ := h
      cases hFound
      rw [List.mem_cons, ih hOthers]
      constructor
      · rintro (hHere | ⟨i, w, hw, hEntry, hSlot⟩)
        · cases hHere
          exact ⟨0, v, rfl, hRead, rfl⟩
        · refine ⟨i + 1, w, hw, hEntry, ?_⟩
          rw [hSlot, Nat.add_assoc, Nat.add_comm 1 i]
      · rintro ⟨i, w, hw, hEntry, hSlot⟩
        cases i with
        | zero =>
            cases hw
            cases hRead.symm.trans hEntry
            exact .inl (congrArg (fun s => (s, e)) hSlot)
        | succ i =>
            refine .inr ⟨i, w, hw, hEntry, ?_⟩
            rw [hSlot, Nat.add_assoc, Nat.add_comm 1 i]

/-- What is listed for a slot: the item of a private property, read as an
entry. -/
def Holds (c : Committer) (o : GraphObject) (property : String × Json)
    (slot : Slot) (e : PrivateEntry) : Prop :=
  slot.objectId = o.id ∧ slot.property = property.1 ∧
    c.privacy.isPrivate property.1 = true ∧
    ∃ vs v, property.2 = .array vs ∧ vs[slot.index]? = some v ∧
    PrivateEntry.ofJson? v = some e

theorem mem_propertyEntries {o : GraphObject} {property : String × Json}
    {found : List (Slot × PrivateEntry)}
    (h : c.propertyEntries o.id property = .ok found) :
    (slot, e) ∈ found ↔ c.Holds o property slot e := by
  rcases propertyEntries_eq_ok.mp h with ⟨hPublic, rfl⟩ | ⟨hPrivate, vs,
    hArray, hList⟩
  · exact ⟨nofun, fun hHolds => absurd hHolds.2.2.1 hPublic⟩
  · rw [mem_listEntries hList]
    constructor
    · rintro ⟨i, v, hv, hEntry, rfl⟩
      exact ⟨rfl, rfl, hPrivate, vs, v, hArray,
        (Nat.zero_add i).symm ▸ hv, hEntry⟩
    · rintro ⟨hObject, hName, _, _, v, hSame, hv, hEntry⟩
      cases hArray.symm.trans hSame
      refine ⟨slot.index, v, hv, hEntry, ?_⟩
      rw [Nat.zero_add, ← hObject, ← hName]

theorem mem_objectEntries {o : GraphObject} {found : List (Slot × PrivateEntry)}
    (h : c.objectEntries o = .ok found) :
    (slot, e) ∈ found ↔ ∃ properties, o.properties = some properties ∧
      ∃ property ∈ properties, c.Holds o property slot e := by
  rcases objectEntries_eq_ok.mp h with ⟨hNone, rfl⟩ | ⟨properties, lists, hSome,
    hLists, rfl⟩
  · simp [hNone]
  · rw [mem_flatten_of_mapM (P := fun property => c.Holds o property slot e)
      mem_propertyEntries hLists]
    simp [hSome]

/-- The entries of a graph are the items of the private properties of its
objects. -/
theorem mem_entries {graph : List GraphObject}
    {found : List (Slot × PrivateEntry)} (h : c.entries graph = .ok found) :
    (slot, e) ∈ found ↔ ∃ o ∈ graph, ∃ properties,
      o.properties = some properties ∧
      ∃ property ∈ properties, c.Holds o property slot e := by
  obtain ⟨lists, hLists, rfl⟩ := entries_eq_ok.mp h
  exact mem_flatten_of_mapM mem_objectEntries hLists

end Listing

/-! ## The entries of a view -/

/-- An entry of a view stands in the slot of an entry, and is what was made of
it. -/
def MadeOf (change : Slot → PrivateEntry → Except Error PrivateEntry)
    (given found : Slot × PrivateEntry) : Prop :=
  found.1 = given.1 ∧ ∃ e, change given.1 given.2 = .ok e ∧ found.2 = e.ordered

/-- Where one function succeeds on things, another one succeeds on what a third
makes of them. -/
theorem exists_mapM_of_mapM {α β γ δ : Type} {f : α → Except Error β}
    {g : α → Except Error γ} {k : β → Except Error δ} {R : γ → δ → Prop}
    (h : ∀ {x y z}, f x = .ok y → g x = .ok z → ∃ w, k y = .ok w ∧ R z w)
    {xs : List α} {ys : List β} {zs : List γ} (hf : xs.mapM f = .ok ys)
    (hg : xs.mapM g = .ok zs) :
    ∃ ws, ys.mapM k = .ok ws ∧ List.Forall₂ R zs ws := by
  induction xs generalizing ys zs with
  | nil =>
      cases hf
      cases hg
      exact ⟨[], rfl, .nil⟩
  | cons x xs ih =>
      simp only [List.mapM_cons, bind_eq_ok] at hf hg
      obtain ⟨y, hy, ys, hys, hf⟩ := hf
      obtain ⟨z, hz, zs, hzs, hg⟩ := hg
      cases hf
      cases hg
      obtain ⟨w, hw, hFirst⟩ := h hy hz
      obtain ⟨ws, hws, hRest⟩ := ih hys hzs
      refine ⟨w :: ws, ?_, .cons hFirst hRest⟩
      simp only [List.mapM_cons, bind_eq_ok]
      exact ⟨w, hw, ws, hws, rfl⟩

section View

variable {c : Committer}
  {change : Slot → PrivateEntry → Except Error PrivateEntry}
  (hSound : KeepsSound change)

include hSound

theorem listEntries_of_mapEntries {objectId property : String}
    {vs ws : List Json} {index : Nat} {given : List (Slot × PrivateEntry)}
    (hChange : mapEntries change objectId property index vs = .ok ws)
    (hGiven : listEntries objectId property index vs = .ok given) :
    ∃ found, listEntries objectId property index ws = .ok found ∧
      List.Forall₂ (MadeOf change) given found := by
  induction vs generalizing ws index given with
  | nil =>
      cases hChange
      cases hGiven
      exact ⟨[], rfl, .nil⟩
  | cons v vs ih =>
      simp only [mapEntries_cons, listEntries, bind_eq_ok] at hChange hGiven
      obtain ⟨w, hFirst, ws, hRest, hws⟩ := hChange
      obtain ⟨e, hRead, others, hOthers, hGiven⟩ := hGiven
      cases hws
      cases hGiven
      have hEntry := readEntry_eq_ok.mp hRead
      obtain ⟨_, e', hSame, hMade, rfl⟩ := changeJson_eq_ok.mp hFirst
      rw [hEntry] at hSame
      cases hSame
      have hAgain :=
        PrivateEntry.ofJson?_json
          (hSound (PrivateEntry.sound_of_ofJson? hEntry) hMade)
      obtain ⟨found, hFound, hAll⟩ := ih hRest hOthers
      refine ⟨(⟨objectId, property, index⟩, e'.ordered) :: found, ?_,
        .cons ⟨rfl, e', hMade, rfl⟩ hAll⟩
      simp only [listEntries, bind_eq_ok]
      exact ⟨_, readEntry_eq_ok.mpr hAgain, found, hFound, rfl⟩

theorem propertyEntries_of_mapProperty {objectId : String}
    {property changed : String × Json} {given : List (Slot × PrivateEntry)}
    (hChange : c.mapProperty change objectId property = .ok changed)
    (hGiven : c.propertyEntries objectId property = .ok given) :
    ∃ found, c.propertyEntries objectId changed = .ok found ∧
      List.Forall₂ (MadeOf change) given found := by
  rcases mapProperty_eq_ok.mp hChange with ⟨hPublic, rfl⟩ | ⟨hPrivate, vs, ws,
    hArray, hEntries, rfl⟩
  · rcases propertyEntries_eq_ok.mp hGiven with ⟨_, rfl⟩ | ⟨hPrivate, _⟩
    · exact ⟨[], hGiven, .nil⟩
    · exact absurd hPrivate hPublic
  · rcases propertyEntries_eq_ok.mp hGiven with ⟨hPublic, _⟩ | ⟨_, _,
      hSame, hList⟩
    · exact absurd hPrivate hPublic
    · cases hArray.symm.trans hSame
      obtain ⟨found, hFound, hAll⟩ :=
        listEntries_of_mapEntries hSound hEntries hList
      exact ⟨found,
        propertyEntries_eq_ok.mpr (.inr ⟨hPrivate, ws, rfl, hFound⟩), hAll⟩

theorem objectEntries_of_mapObject {o changed : GraphObject}
    {given : List (Slot × PrivateEntry)}
    (hChange : c.mapObject change o = .ok changed)
    (hGiven : c.objectEntries o = .ok given) :
    ∃ found, c.objectEntries changed = .ok found ∧
      List.Forall₂ (MadeOf change) given found := by
  rcases mapObject_eq_ok.mp hChange with ⟨hNone, rfl⟩ | ⟨properties, others,
    hSome, hOthers, rfl⟩
  · rcases objectEntries_eq_ok.mp hGiven with ⟨_, rfl⟩ | ⟨_, _, hSome, _⟩
    · exact ⟨[], hGiven, .nil⟩
    · cases hNone.symm.trans hSome
  · rcases objectEntries_eq_ok.mp hGiven with ⟨hNone, _⟩ | ⟨_, lists, hSame,
      hLists, rfl⟩
    · cases hNone.symm.trans hSome
    · cases hSome.symm.trans hSame
      obtain ⟨found, hFound, hAll⟩ :=
        exists_mapM_of_mapM (propertyEntries_of_mapProperty hSound)
          hOthers hLists
      exact ⟨_,
        objectEntries_eq_ok.mpr (.inr ⟨others, found, rfl, hFound, rfl⟩),
        List.rel_flatten hAll⟩

/-- The entries of a view are made of the entries of the graph, one by one. -/
theorem entries_of_view {graph changed : List GraphObject}
    {given : List (Slot × PrivateEntry)}
    (hChange : graph.mapM (c.mapObject change) = .ok changed)
    (hGiven : c.entries graph = .ok given) :
    ∃ found, c.entries changed = .ok found ∧
      List.Forall₂ (MadeOf change) given found := by
  obtain ⟨lists, hLists, rfl⟩ := entries_eq_ok.mp hGiven
  obtain ⟨found, hFound, hAll⟩ :=
    exists_mapM_of_mapM (objectEntries_of_mapObject hSound) hChange hLists
  exact ⟨_, entries_eq_ok.mpr ⟨found, hFound, rfl⟩, List.rel_flatten hAll⟩

end View

/-! ## Views of views -/

section AndThen

variable {c : Committer}
  {first second : Slot → PrivateEntry → Except Error PrivateEntry}

/-- A change and then another one; the entry is written and read in between. -/
def andThen (first second : Slot → PrivateEntry → Except Error PrivateEntry)
    (slot : Slot) (entry : PrivateEntry) : Except Error PrivateEntry := do
  let changed ← first slot entry
  second slot changed.ordered

theorem andThen_eq_ok {slot : Slot} {e e' : PrivateEntry} :
    andThen first second slot e = .ok e' ↔
      ∃ middle, first slot e = .ok middle ∧
        second slot middle.ordered = .ok e' :=
  bind_eq_ok

theorem KeepsSound.andThen (hFirst : KeepsSound first)
    (hSecond : KeepsSound second) :
    KeepsSound (andThen first second) := by
  intro slot e e' hSound hChange
  obtain ⟨middle, hMiddle, hLast⟩ := andThen_eq_ok.mp hChange
  exact hSecond (hFirst hSound hMiddle).ordered hLast

/-- A view of a view is made in one go. -/
theorem mapGraph_andThen (hSound : KeepsSound first)
    {graph middle changed : List GraphObject}
    (hFirst : graph.mapM (c.mapObject first) = .ok middle)
    (hSecond : middle.mapM (c.mapObject second) = .ok changed) :
    graph.mapM (c.mapObject (andThen first second)) = .ok changed := by
  have hFollows : Follows first second (andThen first second) := by
    refine follows_of_entries hSound fun slot e e' hChange => ?_
    rw [andThen, hChange]
    rfl
  exact (mapGraph_of_follows hFollows hFirst).symm.trans hSecond

end AndThen

/-! ## Committed entries -/

variable {c : Committer} {slot : Slot} {e e' : PrivateEntry}

/-- An entry has a hash, which is that of its data if there are any. -/
def Committed (c : Committer) (e : PrivateEntry) : Prop :=
  ∃ hash, e.hash = some hash ∧ ∀ v, e.payload? = some v → c.hash e = .ok hash

/-- The hash is that of the data. -/
theorem hash_congr (h : e.payload? = e'.payload?) : c.hash e = c.hash e' := by
  unfold hash tree payload
  rw [h]

theorem Committed.ordered (h : c.Committed e) : c.Committed e.ordered := h

theorem Committed.stripped (h : c.Committed e) : c.Committed e.stripped := by
  obtain ⟨hash, hHash, _⟩ := h
  exact ⟨hash, hHash, nofun⟩

theorem Committed.hidden (h : c.Committed e) : c.Committed e.hidden := by
  unfold PrivateEntry.hidden
  split
  · obtain ⟨hash, hHash, _⟩ := h
    exact ⟨hash, hHash, nofun⟩
  · exact h

/-- An entry that is committed to data may be given them. -/
theorem Committed.withData {data : Json} {hash : Word}
    (hData : c.hash (.new data) = .ok hash) (hHash : e.hash = some hash) :
    c.Committed { e.withData data with flag := some true } :=
  ⟨hash, hHash, fun _ _ => (hash_congr rfl).trans hData⟩

theorem committed_of_commitAt (h : c.commitAt slot e = .ok e') :
    c.Committed e' := by
  unfold commitAt at h
  split at h
  · obtain ⟨hash, hHash, hCommit⟩ := bind_eq_ok.mp h
    cases hCommit
    exact ⟨hash, rfl, fun _ _ => hHash⟩
  · next hash hNone hHash =>
    cases h
    refine ⟨hash, hHash, fun v hv => ?_⟩
    rw [hNone] at hv
    cases hv
  · cases h

/-- There is nothing left to commit to. -/
theorem commitAt_of_committed (h : c.Committed e) :
    c.commitAt slot e = .ok e := by
  obtain ⟨hash, hHash, hData⟩ := h
  unfold commitAt
  cases hPayload : e.payload? with
  | none => simp only [hHash]
  | some v =>
      have hCommit : { e with hash := some hash } = e := by rw [← hHash]
      exact bind_eq_ok.mpr ⟨hash, hData v hPayload, congrArg Except.ok hCommit⟩

/-- A view whose entries are all committed is left as it is. -/
theorem commitGraph_of_view
    {change : Slot → PrivateEntry → Except Error PrivateEntry}
    (hSound : KeepsSound change)
    (hCommitted : ∀ slot e e', change slot e = .ok e' → c.Committed e')
    {graph changed : List GraphObject}
    (h : graph.mapM (c.mapObject change) = .ok changed) :
    c.commitGraph changed = .ok changed := by
  have hFollows : Follows change c.commitAt change := by
    refine follows_of_entries hSound fun slot e e' hChange => ?_
    rw [commitAt_of_committed (hCommitted slot e e' hChange).ordered, hChange]
    exact congrArg Except.ok e'.json_ordered
  exact (mapGraph_of_follows hFollows h).trans h

/-- Committing twice is committing once. -/
theorem commitGraph_commitGraph {graph committed : List GraphObject}
    (h : c.commitGraph graph = .ok committed) :
    c.commitGraph committed = .ok committed :=
  commitGraph_of_view (keeps_commitAt c).keepsSound
    (fun _ _ _ => committed_of_commitAt) h

/-- There is nothing to commit to in a view of a committed graph, if what it
makes of a committed entry is committed. -/
theorem commitGraph_of_committed
    {change : Slot → PrivateEntry → Except Error PrivateEntry}
    (hSound : KeepsSound change)
    (hCommitted : ∀ slot e e', c.Committed e → change slot e = .ok e' →
      c.Committed e')
    {committed changed : List GraphObject}
    (hCommit : c.commitGraph committed = .ok committed)
    (h : committed.mapM (c.mapObject change) = .ok changed) :
    c.commitGraph changed = .ok changed := by
  -- Entries of any graph may lack a hash; those of this one are what committing
  -- makes of them.
  have hBoth := mapGraph_andThen (keeps_commitAt c).keepsSound hCommit h
  apply commitGraph_of_view ((keeps_commitAt c).keepsSound.andThen hSound)
    _ hBoth
  intro slot e e' hChange
  obtain ⟨first, hFirst, hSecond⟩ := andThen_eq_ok.mp hChange
  exact hCommitted slot first.ordered e'
    (committed_of_commitAt hFirst).ordered hSecond

/-- The public view of a committed graph is committed. -/
theorem commitGraph_stripGraph {committed shown : List GraphObject}
    (hCommit : c.commitGraph committed = .ok committed)
    (hShown : c.stripGraph committed = .ok shown) :
    c.commitGraph shown = .ok shown := by
  apply commitGraph_of_committed keeps_stripped.keepsSound _ hCommit hShown
  intro slot e e' hCommitted hChange
  cases hChange
  exact hCommitted.stripped

/-- So is the view of a holder. -/
theorem commitGraph_hideGraph {committed held : List GraphObject}
    (hCommit : c.commitGraph committed = .ok committed)
    (hHeld : c.hideGraph committed = .ok held) :
    c.commitGraph held = .ok held := by
  apply commitGraph_of_committed keeps_hidden.keepsSound _ hCommit hHeld
  intro slot e e' hCommitted hChange
  cases hChange
  exact hCommitted.hidden

end SealedGraph.Committer
