import Mathlib
import SealedGraph.Proofs.Dataset.OrderIndependence
import SealedGraph.Proofs.Dataset.RootBinding
import SealedGraph.Proofs.Merkle.InclusionProofs
import SealedGraph.Proofs.Private.ReadableGraphs

/-!
# Proofs that an object belongs to a dataset

The leaf of the object at a place of the sorted public graph stands one place
further in the distribution tree, because the summary comes first.  The proof
for an id is that of the first object with it, and the ids in the public graph
are those of the graph; so there is a proof for the ids of the graph and for no
other one.

## Main results

* `Distribution.exists_inclusion`: the proof for the first object of an id.
* `objectProof_of_graph`: which proofs a dataset has, and that they are right.
-/

namespace SealedGraph

open Merkle

/-! ## Proofs of a distribution -/

namespace Distribution

variable {d : Distribution} {objectId : String}

theorem leaves_tree (d : Distribution) :
    d.tree.leaves = keccak256 d.summary.canonicalBytes ::
      d.graph.map fun o => keccak256 o.json.canonicalBytes := by
  show d.items.map keccak256 = _
  simp [items, Function.comp_def]

/-- The first object of an id has a proof; its leaf stands behind that of the
summary. -/
theorem exists_inclusion {first : GraphObject}
    (hFirst : d.graph.find? (fun o => o.id = objectId) = some first) :
    ∃ proof, d.inclusion objectId = .ok proof ∧
      proof.verifies d.tree.root = true ∧
      proof.index = d.graph.findIdx (fun o => o.id = objectId) + 1 ∧
      proof.leaf = keccak256 first.json.canonicalBytes := by
  obtain ⟨hId, i, hShort, hPlace, hBefore⟩ :=
    List.find?_eq_some_iff_getElem.mp hFirst
  have hIndex : d.graph.findIdx? (fun o => o.id = objectId) = some i := by
    rw [List.findIdx?_eq_some_iff_getElem]
    refine ⟨hShort, by rw [hPlace]; exact hId, fun j hj => ?_⟩
    simpa using hBefore j hj
  have hLeaf :
      d.tree.leaves[i + 1]? = some (keccak256 first.json.canonicalBytes) := by
    rw [leaves_tree, List.getElem?_cons_succ, List.getElem?_map,
      List.getElem?_eq_getElem hShort, hPlace, Option.map_some]
  obtain ⟨path, hPath, _, _, hRoot⟩ := Tree.exists_inclusion hLeaf
  have hPlaced : d.graph.findIdx (fun o => o.id = objectId) = i :=
    (List.findIdx?_eq_some_iff_findIdx_eq.mp hIndex).2
  refine ⟨⟨keccak256 first.json.canonicalBytes, i + 1, path⟩, ?_,
    decide_eq_true hRoot, ?_, rfl⟩
  · simp only [inclusion, hIndex, hPath]
  · rw [hPlaced]

theorem inclusion_eq_noObject (hNone : ∀ o ∈ d.graph, o.id ≠ objectId) :
    d.inclusion objectId = .error (.malformed (.noObject objectId)) := by
  have hIndex : d.graph.findIdx? (fun o => o.id = objectId) = none := by
    rw [List.findIdx?_eq_none_iff]
    intro o ho
    exact decide_eq_false (hNone o ho)
  simp only [inclusion, hIndex]

end Distribution

/-! ## Ids of the public graph -/

theorem mem_ids_sortGraph {graph : List GraphObject} {objectId : String} :
    (∃ x ∈ sortGraph graph, x.id = objectId) ↔ ∃ o ∈ graph,
      o.id = objectId := by
  simp only [mem_sortGraph]
  constructor
  · rintro ⟨_, ⟨o, ho, rfl⟩, hId⟩
    exact ⟨o, ho, hId⟩
  · rintro ⟨o, ho, hId⟩
    exact ⟨o.sortParts, ⟨o, ho, rfl⟩, hId⟩

namespace Committer

variable {c : Committer}
  {change : Slot → PrivateEntry → Except Error PrivateEntry}
  {graph changed : List GraphObject}

/-- The objects of a view have the ids of the objects that they are made of. -/
theorem mem_ids_mapGraph (h : graph.mapM (c.mapObject change) = .ok changed)
    {objectId : String} :
    (∃ x ∈ changed, x.id = objectId) ↔ ∃ o ∈ graph, o.id = objectId := by
  have hChanged := mapM_eq_ok.mp h
  clear h
  induction hChanged with
  | nil => simp
  | cons hFirst _ ih =>
      rw [List.exists_mem_cons_iff, List.exists_mem_cons_iff,
        GraphObject.id_of_mapObject hFirst]
      exact or_congr_right ih

end Committer

/-! ## Proofs of a dataset -/

namespace Publisher

/-- A dataset whose distribution tree cannot be built is malformed. -/
theorem okOrMalformed_distribution (p : Publisher) (d : Document) :
    OkOrMalformed (p.distribution d) := by
  have hShown : OkOrMalformed (p.committer.stripGraph d.graph) :=
    Committer.okOrMalformed_mapGraph
      (fun _ e => okOrMalformed_ok e.stripped) d.graph
  obtain ⟨id, type, header, graph, signature, extra⟩ := d
  cases id with
  | none => exact okOrMalformed_error _
  | some datasetId =>
      cases header with
      | none => exact okOrMalformed_error _
      | some header => exact hShown.bind fun shown => okOrMalformed_ok _

/-- Each object of a dataset with a root has a proof, under its id.  The proof
leads to the root from the digest of the first object with this id in the sorted
public graph, and its place is one behind that of the object, because the
summary comes first.  An id that no object has is refused, whether there is a
root or not: something is malformed, and it is the id if there is a root. -/
theorem objectProof_of_graph (p : Publisher) (d : Document) :
    (∀ root, p.rootHash d = .ok root →
      ∃ shown, p.committer.stripGraph d.graph = .ok shown ∧
      ∀ o ∈ d.graph, ∃ proof first, p.objectProof d o.id = .ok proof ∧
        proof.verifies root = true ∧
        (sortGraph shown).find? (fun x => x.id = o.id) = some first ∧
        proof.index = (sortGraph shown).findIdx (fun x => x.id = o.id) + 1 ∧
        proof.leaf = keccak256 first.json.canonicalBytes) ∧
    ∀ objectId, (∀ o ∈ d.graph, o.id ≠ objectId) →
      (∃ cause, p.objectProof d objectId = .error (.malformed cause)) ∧
      ∀ root, p.rootHash d = .ok root →
        p.objectProof d objectId =
          .error (.malformed (.noObject objectId)) := by
  have hIds {shown : List GraphObject}
      (hShown : p.committer.stripGraph d.graph = .ok shown)
      {objectId : String} :
      (∃ x ∈ sortGraph shown, x.id = objectId) ↔
        ∃ o ∈ d.graph, o.id = objectId :=
    mem_ids_sortGraph.trans (Committer.mem_ids_mapGraph hShown)
  have hProof {found : Distribution} (hFound : p.distribution d = .ok found)
      (objectId : String) :
      p.objectProof d objectId = found.inclusion objectId := by
    unfold objectProof
    rw [hFound]
    rfl
  constructor
  · intro root hRoot
    obtain ⟨found, hFound, hTree⟩ := bind_eq_ok.mp hRoot
    cases hTree
    obtain ⟨datasetId, header, shown, _, _, hShown, rfl⟩ :=
      distribution_eq_ok.mp hFound
    refine ⟨shown, hShown, fun o ho => ?_⟩
    obtain ⟨x, hx, hId⟩ := (hIds hShown).mpr ⟨o, ho, rfl⟩
    obtain ⟨first, hFirst⟩ :
      ∃ first, (sortGraph shown).find? (fun x => x.id = o.id) = some first :=
      Option.isSome_iff_exists.mp
        (List.find?_isSome.mpr ⟨x, hx, decide_eq_true hId⟩)
    obtain ⟨proof, hInclusion, hVerifies, hIndex, hLeaf⟩ :=
      Distribution.exists_inclusion
        (d := .ofGraph (sortGraph shown) datasetId header.creator) hFirst
    exact ⟨proof, first, (hProof hFound o.id).trans hInclusion, hVerifies,
      hFirst, hIndex, hLeaf⟩
  · intro objectId hNone
    have hNoObject {found : Distribution}
        (hFound : p.distribution d = .ok found) :
        p.objectProof d objectId =
          .error (.malformed (.noObject objectId)) := by
      obtain ⟨datasetId, header, shown, _, _, hShown, rfl⟩ :=
        distribution_eq_ok.mp hFound
      rw [hProof hFound]
      refine Distribution.inclusion_eq_noObject fun x hx hId => ?_
      obtain ⟨o, ho, hSame⟩ := (hIds hShown).mp ⟨x, hx, hId⟩
      exact hNone o ho hSame
    constructor
    · rcases okOrMalformed_distribution p d with ⟨found,
        hFound⟩ | ⟨cause, hFailed⟩
      · exact ⟨_, hNoObject hFound⟩
      · refine ⟨cause, ?_⟩
        unfold objectProof
        rw [hFailed]
        rfl
    · intro root hRoot
      obtain ⟨found, hFound, _⟩ := bind_eq_ok.mp hRoot
      exact hNoObject hFound

/-- A dataset with an object without id, which holds a private entry, two
objects of one id, and one that is sorted before them. -/
def twinDocument : Document :=
  { id := some "d"
    header := some {}
    graph :=
      [({} : GraphObject).withProperty "private"
          (.array [(PrivateEntry.new (.bool true)).json]),
        { id := "b", type := some "first" },
        { id := "b", type := some "second" }, { id := "a" }] }

set_option maxRecDepth 100000 in
theorem objectProof_of_graph_twins : ∃ root shown proof first unnamed,
    defaultPublisher.rootHash twinDocument = .ok root ∧
    defaultPublisher.committer.stripGraph twinDocument.graph = .ok shown ∧
    defaultPublisher.objectProof twinDocument "b" = .ok proof ∧
    proof.verifies root = true ∧
    (sortGraph shown).find? (fun x => x.id = "b") = some first ∧
    proof.leaf = keccak256 first.json.canonicalBytes ∧
    defaultPublisher.objectProof twinDocument "" = .ok unnamed ∧
    unnamed.verifies root = true ∧
    defaultPublisher.objectProof twinDocument "c" =
      .error (.malformed (.noObject "c")) := by
  have hRooted : (defaultPublisher.rootHash twinDocument).toOption.isSome := by
    decide +kernel
  obtain ⟨root, hRoot⟩ := exists_ok hRooted
  obtain ⟨hProofs, hRefused⟩ :=
    objectProof_of_graph defaultPublisher twinDocument
  obtain ⟨shown, hShown, hObjects⟩ := hProofs root hRoot
  obtain ⟨proof, first, hProof, hVerifies, hFirst, _, hLeaf⟩ :=
    hObjects { id := "b", type := some "second" } (by simp [twinDocument])
  obtain ⟨unnamed, _, hUnnamed, hUnnamedVerifies, _⟩ := hObjects
    (({} : GraphObject).withProperty "private"
      (.array [(PrivateEntry.new (.bool true)).json]))
    (by simp [twinDocument])
  exact ⟨root, shown, proof, first, unnamed, hRoot, hShown, hProof, hVerifies,
    hFirst, hLeaf, hUnnamed, hUnnamedVerifies,
    (hRefused "c" (by decide)).2 root hRoot⟩

end Publisher
end SealedGraph
