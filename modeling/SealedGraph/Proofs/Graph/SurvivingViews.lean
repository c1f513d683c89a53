import SealedGraph.Dataset.Publisher
import SealedGraph.Proofs.Graph.Survival
import SealedGraph.Proofs.Private.Views

/-!
# Views survive

Committing to private entries, stripping and hiding put nothing into a graph
but hashes.  A view of a graph therefore nests no deeper than the graph, and
survives writing and reading as the graph does.

## Main results

* `tidy_changeJson`: a change that puts nothing in takes no more room.
* `survives_mapGraph`: the objects of a view survive.
* `survives_withView`: a document survives with a view of its graph.
-/

namespace SealedGraph

open Json

/-! ## Entries -/

namespace PrivateEntry

variable {e : PrivateEntry} {room : Nat}

theorem tidy_json (hData : ∀ v, e.data = some v → Tidy room v)
    (hExtra : ∀ member ∈ e.extra, Tidy room member.2) :
    Tidy (room + 1) e.json := by
  refine tidy_object.mpr ⟨Members.ascending_ofList _, fun member hMember => ?_⟩
  rcases List.mem_append.mp (Members.mem_ofList hMember) with hField | hOther
  · have hFit := mem_present.mp hField
    simp only [List.mem_cons, List.not_mem_nil, or_false, Prod.mk.injEq] at hFit
    rcases hFit with ⟨_, hFlag⟩ | ⟨_, hValue⟩ | ⟨_, hHash⟩
    · obtain ⟨flag, _, hSame⟩ := Option.map_eq_some_iff.mp hFlag.symm
      exact hSame ▸ .bool room flag
    · exact hData _ hValue.symm
    · obtain ⟨hash, _, hSame⟩ := Option.map_eq_some_iff.mp hHash.symm
      exact hSame ▸ .string room hash.text
  · exact hExtra member hOther

/-- Data and other members of an entry that was read stood in the value it was
read from. -/
theorem tidy_of_ofJson? {v : Json} (hTidy : Tidy (room + 1) v)
    (hRead : ofJson? v = some e) :
    (∀ w, e.data = some w → Tidy room w) ∧ ∀ member ∈ e.extra,
      Tidy room member.2 := by
  simp only [ofJson?, Option.bind_eq_bind, Option.bind_eq_some_iff] at hRead
  obtain ⟨members, hMembers, _, _, data, hData, _, _, he⟩ := hRead
  cases he
  cases object_of_members? hMembers
  have hValues := (tidy_object.mp hTidy).2
  constructor
  · intro w hw
    cases show data = some w from hw
    obtain ⟨_, hLookup, _, hSame⟩ := exists_of_optional hData
    cases hSame
    exact hValues _ (Members.mem_of_lookup hLookup)
  · exact fun member hMember => hValues member (List.mem_filter.mp hMember).1

end PrivateEntry

namespace Committer

/-! ## Changes that put nothing in -/

section Keeps

variable {c : Committer}
  {change : Slot → PrivateEntry → Except Error PrivateEntry} {room : Nat}
  (hKeeps : Keeps change)

include hKeeps

theorem tidy_changeJson {slot : Slot} {v w : Json} (hTidy : Tidy room v)
    (hChange : changeJson change slot v = .ok w) : Tidy room w := by
  obtain ⟨e, e', hRead, hEntry, rfl⟩ := changeJson_eq_ok.mp hChange
  have hObject : ∃ members, v = .object members := by
    obtain ⟨members, hMembers, _⟩ := Option.bind_eq_some_iff.mp hRead
    exact ⟨members, (object_of_members? hMembers).symm⟩
  obtain ⟨members, rfl⟩ := hObject
  obtain ⟨inner, rfl⟩ := hTidy.exists_room_object
  obtain ⟨hData, hExtra⟩ := PrivateEntry.tidy_of_ofJson? hTidy hRead
  obtain ⟨hSameExtra, hSameData⟩ := hKeeps hEntry
  refine PrivateEntry.tidy_json (fun u hu => ?_) (hSameExtra ▸ hExtra)
  rcases hSameData with hSame | hNone
  · exact hData u (hSame ▸ hu)
  · rw [hNone] at hu
    cases hu

theorem tidy_mapEntries {objectId property : String} {vs ws : List Json}
    {index : Nat} (hTidy : ∀ v ∈ vs, Tidy room v)
    (hChange : mapEntries change objectId property index vs = .ok ws) :
    ∀ w ∈ ws, Tidy room w := by
  induction vs generalizing ws index with
  | nil =>
      cases hChange
      exact List.forall_mem_nil _
  | cons v vs ih =>
      simp only [mapEntries_cons, bind_eq_ok] at hChange
      obtain ⟨w, hFirst, others, hOthers, hws⟩ := hChange
      cases hws
      obtain ⟨hHead, hRest⟩ := List.forall_mem_cons.mp hTidy
      exact List.forall_mem_cons.mpr ⟨tidy_changeJson hKeeps hHead hFirst,
        ih hRest hOthers⟩

theorem tidy_mapProperty {objectId : String} {property changed : String × Json}
    (hTidy : Tidy room property.2)
    (hChange : c.mapProperty change objectId property = .ok changed) :
    changed.1 = property.1 ∧ Tidy room changed.2 := by
  rcases mapProperty_eq_ok.mp hChange with ⟨_, rfl⟩ | ⟨_, vs, ws, hArray,
    hEntries, rfl⟩
  · exact ⟨rfl, hTidy⟩
  · rw [hArray] at hTidy
    obtain ⟨inner, rfl⟩ := hTidy.exists_room_array
    exact ⟨rfl,
      tidy_array.mpr (tidy_mapEntries hKeeps (tidy_array.mp hTidy) hEntries)⟩

theorem tidy_mapProperties {objectId : String}
    {properties changed : Members Json} (hTidy : Tidy room (.object properties))
    (hChange : properties.mapM (c.mapProperty change objectId) = .ok changed) :
    Tidy room (.object changed) := by
  obtain ⟨inner, rfl⟩ := hTidy.exists_room_object
  obtain ⟨hAscending, hValues⟩ := tidy_object.mp hTidy
  have hSame :
      List.Forall₂ (fun member member' : String × Json => member.1 = member'.1)
        properties changed := by
    have hAll :=
      (List.forall₂_and_left properties changed).mpr ⟨hValues,
        mapM_eq_ok.mp hChange⟩
    exact hAll.imp fun _ _ h => (tidy_mapProperty hKeeps h.1 h.2).1.symm
  have hNames : properties.map (·.1) = changed.map (·.1) := by
    rw [← List.forall₂_eq_eq_eq, List.forall₂_map_left_iff,
      List.forall₂_map_right_iff]
    exact hSame
  refine tidy_object.mpr ⟨?_, fun member hMember => ?_⟩
  · rw [Members.ascending_iff_names, ← hNames]
    exact Members.ascending_iff_names.mp hAscending
  · obtain ⟨given, hGiven, hProperty⟩ :=
      exists_of_mem_mapM hChange member hMember
    exact (tidy_mapProperty hKeeps (hValues given hGiven) hProperty).2

/-- The objects of a view survive. -/
theorem survives_mapGraph (hRoom : 2 ≤ room) {graph changed : List GraphObject}
    (hGraph : ∀ o ∈ graph, Survives GraphObject.ofJson? GraphObject.json room o)
    (hChange : graph.mapM (c.mapObject change) = .ok changed) :
    ∀ o ∈ changed, Survives GraphObject.ofJson? GraphObject.json room o := by
  intro o hMember
  obtain ⟨given, hGiven, hObject⟩ := exists_of_mem_mapM hChange o hMember
  rcases mapObject_eq_ok.mp hObject with ⟨_, rfl⟩ | ⟨properties, others, hSome,
    hOthers, rfl⟩
  · exact hGraph given hGiven
  · refine GraphObject.survives_withProperties hRoom (hGraph given hGiven) hSome
      fun inner hTidy => ?_
    exact tidy_mapProperties hKeeps hTidy hOthers

/-- So does a document with a view of its graph. -/
theorem survives_withView (hRoom : 2 ≤ room) {d : Document}
    {graph : List GraphObject}
    (h : Survives Document.ofNormal? Document.json (room + 2) d)
    (hChange : d.graph.mapM (c.mapObject change) = .ok graph) :
    Survives Document.ofNormal? Document.json (room + 2)
      { d with graph := graph } := by
  apply Document.survives_withGraph hRoom h
  exact survives_mapGraph hKeeps hRoom
    (Document.survives_object hRoom h) hChange

end Keeps

end Committer
end SealedGraph
