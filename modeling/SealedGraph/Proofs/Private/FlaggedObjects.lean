import Mathlib
import SealedGraph.Proofs.Private.Committing
import SealedGraph.Proofs.Private.ObjectByObject

/-!
# Objects with flagged entries

The ids of the objects that hold an entry flagged private are listed in the
order in which such objects first appear.  Object after object is looked at: one
that holds such an entry adds its id, unless it is listed already, and nothing
that comes later changes where an id has first appeared.

## Main results

* `exists_flagged_iff`: when an object holds an entry flagged private.
* `ListsFlagged.append_listed`, `ListsFlagged.append_new`: what one more object
  adds.
* `listsFlagged_of_entries`: the ids that the entries of a graph stand for.
* `flaggedIds_of_view`: the ids for the entries of a view.
* `privateIds_exact`: the ids for a graph and for its views.
-/

namespace SealedGraph

theorem PrivateEntry.isPrivate_hidden (e : PrivateEntry) :
    e.hidden.isPrivate = e.isPrivate := by
  unfold PrivateEntry.hidden
  split <;> rfl

namespace Committer

variable {c : Committer} {graph : List GraphObject} {o : GraphObject}

/-! ## Flagged objects -/

/-- An item of one of the private properties has the flag. -/
def HoldsFlagged (c : Committer) (o : GraphObject) : Prop :=
  ∃ properties, o.properties = some properties ∧ ∃ property ∈ properties,
    c.privacy.isPrivate property.1 = true ∧ ∃ vs, property.2 = .array vs ∧
      ∃ v ∈ vs, v.get? "isPrivate" = some (.bool true)

theorem isPrivate_iff {v : Json} {e : PrivateEntry}
    (h : PrivateEntry.ofJson? v = some e) :
    e.isPrivate = true ↔ v.get? "isPrivate" = some (.bool true) := by
  simp only [PrivateEntry.ofJson?, Option.bind_eq_bind, Option.bind_eq_some_iff]
    at h
  obtain ⟨ms, hMembers, flag, hFlag, _, _, _, _, hEntry⟩ := h
  cases hEntry
  rw [Json.get?, hMembers, Option.bind_some, PrivateEntry.isPrivate]
  unfold Json.optional at hFlag
  split at hFlag
  · next hLookup =>
    cases hFlag
    simp [hLookup]
  · next hLookup =>
    cases hFlag
    simp [hLookup]
  · next w _ hLookup =>
    rw [hLookup]
    cases w with
    | bool value =>
        cases hFlag
        simp
    | _ => cases hFlag

/-- An object holds a flagged entry if one of its entries is flagged. -/
theorem exists_flagged_iff {found : List (Slot × PrivateEntry)}
    (h : c.objectEntries o = .ok found) :
    (∃ entry ∈ found, entry.2.isPrivate = true) ↔ c.HoldsFlagged o := by
  constructor
  · rintro ⟨⟨slot, e⟩, hMem, hFlag⟩
    obtain ⟨properties, hSome, property, hProperty, hHolds⟩ :=
      (mem_objectEntries h).mp hMem
    obtain ⟨_, _, hPrivate, vs, v, hArray, hItem, hRead⟩ := hHolds
    exact ⟨properties, hSome, property, hProperty, hPrivate, vs, hArray, v,
      List.mem_of_getElem? hItem, (isPrivate_iff hRead).mp hFlag⟩
  · rintro ⟨properties, hSome, property, hProperty, hPrivate, vs, hArray, v,
      hItem, hFlag⟩
    have hReadable :=
      exists_objectEntries_iff.mp ⟨found, h⟩ properties hSome property hProperty
    obtain ⟨_, hSame, hItems⟩ := hReadable hPrivate
    cases hArray.symm.trans hSame
    obtain ⟨e, hRead⟩ := hItems v hItem
    obtain ⟨i, hi⟩ := List.mem_iff_getElem?.mp hItem
    refine ⟨(⟨o.id, property.1, i⟩, e), ?_, (isPrivate_iff hRead).mpr hFlag⟩
    exact (mem_objectEntries h).mpr
      ⟨properties, hSome, property, hProperty, rfl, rfl, hPrivate, vs, v,
        hArray, hi, hRead⟩

/-! ## Lists of their ids -/

/-- The first object of an id that holds a flagged entry stands in a place. -/
structure FirstFlagged (c : Committer) (graph : List GraphObject) (id : String)
    (i : Nat) : Prop where
  here : ∃ o, graph[i]? = some o ∧ o.id = id ∧ c.HoldsFlagged o
  first : ∀ j o, j < i → graph[j]? = some o → o.id = id → ¬ c.HoldsFlagged o

/-- The ids of the objects that hold a flagged entry, each once, in the order in
which such objects first appear. -/
structure ListsFlagged (c : Committer) (graph : List GraphObject)
    (ids : List String) : Prop where
  nodup : ids.Nodup
  mem : ∀ id, id ∈ ids ↔ ∃ o ∈ graph, o.id = id ∧ c.HoldsFlagged o
  order : ids.Pairwise fun a b =>
    ∃ i j, c.FirstFlagged graph a i ∧ c.FirstFlagged graph b j ∧ i < j

theorem FirstFlagged.lt {id : String} {i : Nat}
    (h : c.FirstFlagged graph id i) :
    i < graph.length := by
  obtain ⟨o, ho, _⟩ := h.here
  exact (List.getElem?_eq_some_iff.mp ho).1

/-- What comes later does not change where an id has first appeared. -/
theorem FirstFlagged.append {id : String} {i : Nat}
    (h : c.FirstFlagged graph id i) (others : List GraphObject) :
    c.FirstFlagged (graph ++ others) id i := by
  constructor
  · rw [List.getElem?_append_left h.lt]
    exact h.here
  · intro j o hj ho
    rw [List.getElem?_append_left (hj.trans h.lt)] at ho
    exact h.first j o hj ho

open Classical in
theorem exists_firstFlagged {id : String}
    (h : ∃ o ∈ graph, o.id = id ∧ c.HoldsFlagged o) :
    ∃ i, c.FirstFlagged graph id i := by
  obtain ⟨o, hMem, hFlagged⟩ := h
  obtain ⟨i, hi⟩ := List.mem_iff_getElem?.mp hMem
  have hSome : ∃ i o, graph[i]? = some o ∧ o.id = id ∧ c.HoldsFlagged o :=
    ⟨i, o, hi, hFlagged⟩
  refine ⟨Nat.find hSome, Nat.find_spec hSome, fun j o' hj ho' hId hHolds => ?_⟩
  exact Nat.find_min hSome hj ⟨o', ho', hId, hHolds⟩

theorem exists_flagged_append {id : String} :
    (∃ o' ∈ graph ++ [o], o'.id = id ∧ c.HoldsFlagged o') ↔
      (∃ o' ∈ graph, o'.id = id ∧ c.HoldsFlagged o') ∨ o.id = id ∧
        c.HoldsFlagged o := by
  simp only [List.mem_append, or_and_right, exists_or, List.mem_singleton,
    exists_eq_left]

namespace ListsFlagged

variable {ids : List String}

theorem nil : c.ListsFlagged [] [] where
  nodup := .nil
  mem := by simp
  order := .nil

private theorem order_append (h : c.ListsFlagged graph ids) (o : GraphObject) :
    ids.Pairwise fun a b =>
      ∃ i j, c.FirstFlagged (graph ++ [o]) a i ∧
        c.FirstFlagged (graph ++ [o]) b j ∧ i < j :=
  h.order.imp fun ⟨i, j, hi, hj, hLess⟩ =>
    ⟨i, j, hi.append [o], hj.append [o], hLess⟩

/-- An object that holds no flagged entry, or is listed already, adds
nothing. -/
theorem append_listed (h : c.ListsFlagged graph ids)
    (ho : c.HoldsFlagged o → o.id ∈ ids) :
    c.ListsFlagged (graph ++ [o]) ids where
  nodup := h.nodup
  mem id := by
    rw [exists_flagged_append, ← h.mem]
    refine ⟨.inl, ?_⟩
    rintro (hMem | ⟨rfl, hFlagged⟩)
    · exact hMem
    · exact ho hFlagged
  order := h.order_append o

/-- The first object of its id that holds a flagged entry adds its id. -/
theorem append_new (h : c.ListsFlagged graph ids) (hFlagged : c.HoldsFlagged o)
    (hNew : o.id ∉ ids) :
    c.ListsFlagged (graph ++ [o]) (ids ++ [o.id]) where
  nodup := List.nodup_append.mpr ⟨h.nodup, List.nodup_singleton _,
    fun a ha b hb hSame =>
    hNew (List.mem_singleton.mp hb ▸ hSame ▸ ha)⟩
  mem id := by
    rw [exists_flagged_append, List.mem_append, h.mem, List.mem_singleton]
    exact or_congr_right ⟨fun hId => ⟨hId.symm, hFlagged⟩,
      fun hHere => hHere.1.symm⟩
  order := by
    -- An earlier object with flagged entries would have been listed.
    have hHere : c.FirstFlagged (graph ++ [o]) o.id graph.length := by
      refine ⟨⟨o, List.getElem?_concat_length, rfl, hFlagged⟩,
        fun j o' hj ho' hId hHolds => ?_⟩
      rw [List.getElem?_append_left hj] at ho'
      exact hNew ((h.mem _).mpr ⟨o', List.mem_of_getElem? ho', hId, hHolds⟩)
    refine List.pairwise_append.mpr ⟨h.order_append o,
      List.pairwise_singleton _ _, ?_⟩
    intro a ha b hb
    cases List.mem_singleton.mp hb
    obtain ⟨i, hi⟩ := exists_firstFlagged ((h.mem a).mp ha)
    exact ⟨i, graph.length, hi.append [o], hHere, hi.lt⟩

end ListsFlagged

/-! ## The ids of flagged entries -/

/-- The ids of the objects in which flagged entries stand, entry by entry. -/
def flaggedIds (found : List (Slot × PrivateEntry)) : List String :=
  (found.filter fun entry => entry.2.isPrivate).map fun entry =>
    entry.1.objectId

theorem privateIds_eq_ok {ids : List String} : c.privateIds graph = .ok ids ↔
    ∃ found, c.entries graph = .ok found ∧
      (flaggedIds found).eraseDups = ids := by
  unfold privateIds
  rw [bind_eq_ok]
  refine exists_congr fun found => and_congr_right fun _ => ?_
  exact ⟨Except.ok.inj, congrArg Except.ok⟩

theorem entries_append_eq_ok {found : List (Slot × PrivateEntry)} :
    c.entries (graph ++ [o]) = .ok found ↔ ∃ before here,
      c.entries graph = .ok before ∧
      c.objectEntries o = .ok here ∧ before ++ here = found := by
  simp only [entries_eq_ok, List.mapM_append, List.mapM_cons, List.mapM_nil,
    bind_eq_ok]
  constructor
  · rintro ⟨_, ⟨before, hBefore, _, ⟨here, hHere, _, hNone, hOne⟩, hLists⟩, rfl⟩
    cases hNone
    cases hOne
    cases hLists
    exact ⟨_, here, ⟨before, hBefore, rfl⟩, hHere, by simp⟩
  · rintro ⟨_, here, ⟨before, hBefore, rfl⟩, hHere, rfl⟩
    exact ⟨_, ⟨before, hBefore, [here], ⟨here, hHere, [], rfl, rfl⟩, rfl⟩,
      by simp⟩

/-- The flagged entries of an object stand for its id. -/
theorem mem_flaggedIds {here : List (Slot × PrivateEntry)}
    (h : c.objectEntries o = .ok here) (id : String) :
    id ∈ flaggedIds here ↔ id = o.id ∧ c.HoldsFlagged o := by
  rw [← exists_flagged_iff h, flaggedIds, List.mem_map]
  have hId {entry : Slot × PrivateEntry} (hMem : entry ∈ here) :
      entry.1.objectId = o.id := by
    obtain ⟨_, _, _, _, hHolds⟩ := (mem_objectEntries h).mp hMem
    exact hHolds.1
  constructor
  · rintro ⟨entry, hEntry, rfl⟩
    obtain ⟨hMem, hFlag⟩ := List.mem_filter.mp hEntry
    exact ⟨hId hMem, entry, hMem, hFlag⟩
  · rintro ⟨rfl, entry, hMem, hFlag⟩
    exact ⟨entry, List.mem_filter.mpr ⟨hMem, hFlag⟩, hId hMem⟩

theorem flaggedIds_cons (entry : Slot × PrivateEntry)
    (rest : List (Slot × PrivateEntry)) :
    flaggedIds (entry :: rest) =
      if entry.2.isPrivate then entry.1.objectId :: flaggedIds rest
        else flaggedIds rest := by
  unfold flaggedIds
  rw [List.filter_cons]
  split <;> rfl

theorem flaggedIds_append (before here : List (Slot × PrivateEntry)) :
    flaggedIds (before ++ here) = flaggedIds before ++ flaggedIds here := by
  rw [flaggedIds, List.filter_append, List.map_append]
  rfl

theorem eraseDups_append_of_subset {xs ys : List String} (h : ys ⊆ xs) :
    (xs ++ ys).eraseDups = xs.eraseDups := by
  have hNone : ys.removeAll xs = [] := by
    rw [List.removeAll, List.filter_eq_nil_iff]
    intro y hy
    simpa using h hy
  rw [List.eraseDups_append, hNone, List.eraseDups_nil, List.append_nil]

theorem eraseDups_append_of_new {xs ys : List String} {x : String}
    (hAll : ∀ y, y ∈ ys ↔ y = x) (hNew : x ∉ xs) :
    (xs ++ ys).eraseDups = xs.eraseDups ++ [x] := by
  have hSome : ys.removeAll xs = ys := by
    rw [List.removeAll, List.filter_eq_self]
    intro y hy
    simpa [(hAll y).mp hy] using hNew
  rw [List.eraseDups_append, hSome]
  cases ys with
  | nil => exact absurd ((hAll x).mpr rfl) List.not_mem_nil
  | cons y ys =>
      have hNone : ys.filter (fun z => !z == y) = [] := by
        rw [List.filter_eq_nil_iff]
        intro z hz
        simp [(hAll z).mp (List.mem_cons_of_mem y hz),
          (hAll y).mp List.mem_cons_self]
      rw [List.eraseDups_cons, hNone, (hAll y).mp List.mem_cons_self,
        List.eraseDups_nil]

/-- The flagged entries of a graph stand for the ids of the objects that hold
one. -/
theorem listsFlagged_of_entries {found : List (Slot × PrivateEntry)}
    (h : c.entries graph = .ok found) :
    c.ListsFlagged graph (flaggedIds found).eraseDups := by
  -- From the front, as the ids are collected: each object is put behind those
  -- that came before.
  induction graph using List.reverseRecOn generalizing found with
  | nil =>
      cases h
      exact .nil
  | append_singleton graph o ih =>
      obtain ⟨before, here, hBefore, hHere, rfl⟩ := entries_append_eq_ok.mp h
      have hListed := ih hBefore
      have hIds := mem_flaggedIds hHere
      rw [flaggedIds_append]
      by_cases hNew : c.HoldsFlagged o ∧ o.id ∉ flaggedIds before
      · have hAll (id : String) : id ∈ flaggedIds here ↔ id = o.id :=
          (hIds id).trans (and_iff_left hNew.1)
        rw [eraseDups_append_of_new hAll hNew.2]
        exact hListed.append_new hNew.1 fun hMem =>
          hNew.2 (List.mem_eraseDups.mp hMem)
      · have hOld (hFlagged : c.HoldsFlagged o) : o.id ∈ flaggedIds before := by
          by_contra hNot
          exact hNew ⟨hFlagged, hNot⟩
        rw [eraseDups_append_of_subset fun id hMem => ?_]
        · exact hListed.append_listed fun hFlagged =>
            List.mem_eraseDups.mpr (hOld hFlagged)
        · obtain ⟨rfl, hFlagged⟩ := (hIds id).mp hMem
          exact hOld hFlagged

/-! ## Views -/

/-- If a view keeps all flags, or none, so it does with the ids. -/
theorem flaggedIds_of_view
    {change : Slot → PrivateEntry → Except Error PrivateEntry} (keep : Bool)
    (hFlag : ∀ slot e e', change slot e = .ok e' →
      e'.isPrivate = (keep && e.isPrivate))
    {given found : List (Slot × PrivateEntry)}
    (h : List.Forall₂ (MadeOf change) given found) :
    flaggedIds found = if keep then flaggedIds given else [] := by
  induction h with
  | nil => cases keep <;> rfl
  | @cons entry made given found hFirst _ ih =>
      obtain ⟨hSlot, e', hMade, hEntry⟩ := hFirst
      have hHere : made.2.isPrivate = (keep && entry.2.isPrivate) := by
        rw [hEntry, ← hFlag _ _ _ hMade]
        rfl
      simp only [flaggedIds_cons, hHere, hSlot, ih]
      cases keep <;> rfl

/-- So the ids for a graph determine those for a view of it. -/
theorem privateIds_of_view
    {change : Slot → PrivateEntry → Except Error PrivateEntry} (keep : Bool)
    (hSound : KeepsSound change)
    (hFlag : ∀ slot e e', change slot e = .ok e' →
      e'.isPrivate = (keep && e.isPrivate))
    {changed : List GraphObject}
    (hChange : graph.mapM (c.mapObject change) = .ok changed)
    {ids : List String} (h : c.privateIds graph = .ok ids) :
    c.privateIds changed = .ok (if keep then ids else []) := by
  obtain ⟨given, hGiven, rfl⟩ := privateIds_eq_ok.mp h
  obtain ⟨found, hFound, hMade⟩ := entries_of_view hSound hChange hGiven
  refine privateIds_eq_ok.mpr ⟨found, hFound, ?_⟩
  rw [flaggedIds_of_view keep hFlag hMade]
  cases keep <;> rfl

/-- The ids of the objects that hold a flagged entry are listed, each once, in
the order in which such objects first appear.  They are the same for a holder,
and the public sees none. -/
theorem privateIds_exact {ids : List String}
    (h : c.privateIds graph = .ok ids) :
    c.ListsFlagged graph ids ∧
    (∃ held, c.hideGraph graph = .ok held ∧ c.privateIds held = .ok ids) ∧
    ∃ shown, c.stripGraph graph = .ok shown ∧ c.privateIds shown = .ok [] := by
  obtain ⟨found, hFound, hIds⟩ := privateIds_eq_ok.mp h
  obtain ⟨held, hHeld⟩ : ∃ held, c.hideGraph graph = .ok held :=
    (mapGraph_ok_iff (fun _ _ => ⟨_, rfl⟩) graph).mpr ⟨found, hFound⟩
  obtain ⟨shown, hShown⟩ : ∃ shown, c.stripGraph graph = .ok shown :=
    (mapGraph_ok_iff (fun _ _ => ⟨_, rfl⟩) graph).mpr ⟨found, hFound⟩
  refine ⟨hIds ▸ listsFlagged_of_entries hFound, ⟨held, hHeld, ?_⟩, shown,
    hShown, ?_⟩
  · refine privateIds_of_view true keeps_hidden.keepsSound ?_ hHeld h
    intro slot e e' hChange
    cases hChange
    rw [Bool.true_and, PrivateEntry.isPrivate_hidden]
  · refine privateIds_of_view false keeps_stripped.keepsSound ?_ hShown h
    intro slot e e' hChange
    cases hChange
    rfl

/-! ## A graph that names an object twice -/

/-- An object whose entries in two private properties have the given flags. -/
def flaggedObject (id : String) (first second : List Bool) : GraphObject :=
  let entry (flag : Bool) : Json := .object [("isPrivate", .bool flag)]
  let properties : Members Json :=
    [("a", .array (first.map entry)), ("b", .null),
      ("c", .array (second.map entry))]
  { GraphObject.new id with properties := some properties }

/-- Two objects of one id, of which the second one holds flagged entries in both
properties; two of another id in between; and an object without properties. -/
def flaggedGraph : List GraphObject :=
  [{}, flaggedObject "x" [false] [], flaggedObject "z" [] [false, true],
    flaggedObject "y" [true] [], flaggedObject "z" [true] [],
    flaggedObject "x" [true, true] [true]]

theorem privateIds_exact_twice :
    ∃ ids, pairCommitter.privateIds flaggedGraph = .ok ids ∧
    ids = ["z", "y", "x"] ∧ pairCommitter.ListsFlagged flaggedGraph ids ∧
    (∃ held, pairCommitter.hideGraph flaggedGraph = .ok held ∧
      pairCommitter.privateIds held = .ok ids) ∧
    ∃ shown, pairCommitter.stripGraph flaggedGraph = .ok shown ∧
      pairCommitter.privateIds shown = .ok [] := by
  have hIds : pairCommitter.privateIds flaggedGraph = .ok ["z", "y", "x"] :=
    toOption_eq_some.mp (by decide +kernel)
  exact ⟨_, hIds, rfl, privateIds_exact hIds⟩

end Committer
end SealedGraph
