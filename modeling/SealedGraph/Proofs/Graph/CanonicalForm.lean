import Mathlib
import SealedGraph.Proofs.Graph.Survival

/-!
# The canonical form is a fixed point of reading

The canonical text of a document that was read is read again, as the document
with its graph sorted, if the numbers in the text are read back; and since
sorting twice is sorting once, the canonical text of that one is the same text.

## Main results

* `Document.survives_sorted`, `Document.readsBack_sorted`: sorting the graph of
  a document takes no part away, and brings no number in.
* `Document.parse_canonicalText`: the canonical text is read as the sorted
  document.
-/

namespace SealedGraph

open Json

/-! ## Numbers of sorted graphs -/

/-- An object has the same numbers however its parts are sorted. -/
theorem GraphObject.readsBack_sortParts {room : Nat} {o : GraphObject}
    (hRoom : 2 ≤ room) (h : Survives ofJson? json room o)
    (hNumbers : o.json.ReadsBack) : o.sortParts.json.ReadsBack := by
  have hGiven := recorded_of_survives hRoom h
  have hSorted := recorded_of_survives hRoom (survives_sortParts hRoom h)
  obtain ⟨hFields, hExtra⟩ := hGiven.readsBack_iff.mp hNumbers
  refine hSorted.readsBack_iff.mpr ⟨?_, hExtra⟩
  simp only [fields, List.forall_mem_cons] at hFields ⊢
  obtain ⟨hId, hType, hIdentifiers, hProperties, hRelations, hEnd⟩ := hFields
  refine ⟨hId, hType, ?_, hProperties, ?_, hEnd⟩
  · intro v hv
    obtain ⟨_, hSome, rfl⟩ := Option.map_eq_some_iff.mp hv
    obtain ⟨items, hItems, rfl⟩ := Option.map_eq_some_iff.mp hSome
    have hArray := hIdentifiers (.array items) (congrArg _ hItems)
    exact hArray.perm (perm_sortByDigest _ items)
  · intro v hv
    obtain ⟨_, hSome, rfl⟩ := Option.map_eq_some_iff.mp hv
    obtain ⟨relations, hGiven, rfl⟩ := Option.map_eq_some_iff.mp hSome
    have hArray := hRelations (.array (relations.map Relation.json))
      (by rw [hGiven]; rfl)
    exact hArray.perm ((perm_sortByDigest Relation.json relations).map _)

namespace Document

/-! ## Documents with sorted graphs -/

/-- A document survives with its graph sorted. -/
theorem survives_sorted {room : Nat} {d : Document}
    (h : Survives ofNormal? json (room + 4) d) :
    Survives ofNormal? json (room + 4) d.sorted := by
  have hRoom : 2 ≤ room + 2 := Nat.le_add_left 2 room
  refine survives_withGraph hRoom h fun o hMem => ?_
  obtain ⟨given, hGiven, rfl⟩ := mem_sortGraph.mp hMem
  exact GraphObject.survives_sortParts hRoom
    (survives_object hRoom h given hGiven)

/-- A document has the same numbers with its graph sorted. -/
theorem readsBack_sorted {room : Nat} {d : Document}
    (h : Survives ofNormal? json (room + 4) d) (hNumbers : d.json.ReadsBack) :
    d.sorted.json.ReadsBack := by
  have hRoom : 2 ≤ room + 2 := Nat.le_add_left 2 room
  have hGiven := recorded_of_survives (Nat.le_add_left 4 room) h
  have hSorted :=
    recorded_of_survives (Nat.le_add_left 4 room) (survives_sorted h)
  obtain ⟨hFields, hExtra⟩ := hGiven.readsBack_iff.mp hNumbers
  refine hSorted.readsBack_iff.mpr ⟨?_, hExtra⟩
  simp only [fields, List.forall_mem_cons] at hFields ⊢
  obtain ⟨hId, hType, hHeader, hGraph, hSignature, hEnd⟩ := hFields
  refine ⟨hId, hType, hHeader, ?_, hSignature, hEnd⟩
  intro v hv
  cases hv
  have hObjects := readsBack_array.mp (hGraph _ rfl)
  refine readsBack_array.mpr fun item hItem => ?_
  obtain ⟨_, hMem, rfl⟩ := List.mem_map.mp hItem
  obtain ⟨o, ho, rfl⟩ := mem_sortGraph.mp hMem
  exact GraphObject.readsBack_sortParts hRoom (survives_object hRoom h o ho)
    (hObjects _ (List.mem_map_of_mem ho))

/-- The canonical text does not show in which order the graph stood. -/
theorem canonicalText_sorted (d : Document) :
    d.sorted.canonicalText = d.canonicalText := by
  show { d with graph := sortGraph (sortGraph d.graph) }.json.canonicalText = _
  rw [sortGraph_sortGraph]
  rfl

/-- The canonical text of a document that was read from a text, and whose
numbers are read back from theirs, is read as the same document with its graph
sorted, and that one has the same canonical text. -/
theorem parse_canonicalText {text : String} {d : Document}
    (hRead : parse text = .ok d) (hNumbers : d.json.ReadsBack) :
    parse d.canonicalText = .ok { d with graph := sortGraph d.graph } ∧
      { d with graph := sortGraph d.graph }.canonicalText =
        d.canonicalText := by
  have hGiven := survives_of_parse hRead
  have hSorted := survives_sorted hGiven
  have hWire : Json.parse? d.canonicalText = some d.sorted.json :=
    (parse?_canonicalText_of_tidy hSorted.tidy).trans
      (reread?_eq_self_iff.mpr (readsBack_sorted hGiven hNumbers))
  constructor
  · exact parse_of_survives hSorted hWire
  · exact d.canonicalText_sorted

/-! ## A document that is not in canonical form -/

/-- Three objects, one of them without id, in descending order; a number with
a zero too many; a default that is left out; and nulls in the places of an id
and of a signature. -/
def looseText : String :=
  "\x7b \"@graph\": [\x7b\"@id\": \"b\", \"identifiers\": [2.50, 1]\x7d, " ++
    "\x7b\"@id\": null\x7d, \x7b\"@id\": \"a\"\x7d], " ++
    "\"datasetHeader\": \x7b\x7d, \"signature\": null\x7d"

set_option maxRecDepth 100000 in
theorem parse_canonicalText_loose : ∃ d, parse looseText = .ok d ∧
    d.graph.map (·.id) = ["b", "", "a"] ∧ d.header.isSome ∧
    "signature" ∈ d.extra.map (·.1) ∧ d.json.ReadsBack ∧
    parse d.canonicalText = .ok { d with graph := sortGraph d.graph } ∧
      { d with graph := sortGraph d.graph }.canonicalText =
        d.canonicalText := by
  have hParsed : (parse looseText).toOption.isSome := by decide +kernel
  have hLoose : ∀ d ∈ (parse looseText).toOption,
      d.graph.map (·.id) = ["b", "", "a"] ∧ d.header.isSome ∧
        "signature" ∈ d.extra.map (·.1) ∧ d.json.ReadsBack := by
    decide +kernel
  obtain ⟨d, hd⟩ := Option.isSome_iff_exists.mp hParsed
  have hRead := toOption_eq_some.mp hd
  obtain ⟨hIds, hHeader, hNull, hNumbers⟩ := hLoose d hd
  exact ⟨d, hRead, hIds, hHeader, hNull, hNumbers,
    parse_canonicalText hRead hNumbers⟩

end Document
end SealedGraph
