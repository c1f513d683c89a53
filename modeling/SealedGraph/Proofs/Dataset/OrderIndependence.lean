import Mathlib
import SealedGraph.Proofs.Dataset.ReceivedSignature
import SealedGraph.Proofs.Graph.Likeness

/-!
# What does not depend on order

Relations and identifiers of an object, and the objects of a graph, may come in
another order: what is hashed and what is signed of a document stays the same.
Objects without id are told by their places, and objects of one id by their
order, so these must be kept.  Relations and identifiers are told by the
digests of their texts, so two of them must not have different texts with one
digest.

The views of a document are made object by object; hence reordered documents
have reordered views.

## Main results

* `alike_sortGraph`: reordered graphs look alike when they are sorted.
* `Reordered.exists_mapM`: reordered graphs have reordered views.
* `Document.publishedAlike_of_reordered`: what does not depend on the order.
-/

namespace SealedGraph

/-! ## Reordered graphs -/

/-- The same objects, first each of them shuffled, and then the graph
rearranged. -/
def Reordered (graph others : List GraphObject) : Prop :=
  ∃ middle, List.Forall₂ GraphObject.Shuffled graph middle ∧
    Rearranged middle others

/-- Reordered graphs look alike when they are sorted. -/
theorem alike_sortGraph {graph others : List GraphObject}
    (h : Reordered graph others) (hFree : ∀ o ∈ graph, ¬ o.Clashes) :
    List.Forall₂ GraphObject.Alike (sortGraph graph) (sortGraph others) := by
  obtain ⟨middle, hShuffled, hRearranged⟩ := h
  have hMiddle : sortGraph middle = sortGraph others :=
    sortById_eq_of_rearranged (hRearranged.map fun _ => rfl)
  have hParts : List.Forall₂ GraphObject.Alike (graph.map GraphObject.sortParts)
      (middle.map GraphObject.sortParts) := by
    rw [List.forall₂_map_left_iff, List.forall₂_map_right_iff]
    refine ((List.forall₂_and_left graph middle).mpr ⟨hFree, hShuffled⟩).imp
      fun o o' hBoth => ?_
    exact GraphObject.alike_sortParts hBoth.2 hBoth.1
  rw [← hMiddle]
  exact forall₂_sortById (fun _ _ hAlike => hAlike.id) hParts

/-- Graphs that look alike when they are sorted have one digest. -/
theorem graphHash_congr {graph others : List GraphObject}
    (h : List.Forall₂ GraphObject.Alike (sortGraph graph) (sortGraph others)) :
    graphHash graph = graphHash others := by
  rw [graphHash, graphHash, canonicalGraph, canonicalGraph,
    Json.canonicalText_congr (normalize_graphJson_congr h)]

/-! ## Views of reordered graphs -/

section Views

variable {c : Committer}
  {change : Slot → PrivateEntry → Except Error PrivateEntry}

theorem GraphObject.id_of_mapObject {o changed : GraphObject}
    (h : c.mapObject change o = .ok changed) :
    changed.id = o.id := by
  rcases Committer.mapObject_eq_ok.mp h with ⟨_, rfl⟩ | ⟨_, _, _, _, rfl⟩ <;>
    rfl

theorem GraphObject.clashes_of_mapObject {o changed : GraphObject}
    (h : c.mapObject change o = .ok changed) (hFree : ¬ o.Clashes) :
    ¬ changed.Clashes := by
  rcases Committer.mapObject_eq_ok.mp h with ⟨_, rfl⟩ | ⟨_, _, _, _, rfl⟩ <;>
    exact hFree

/-- Of a shuffled object the same properties are changed. -/
theorem GraphObject.Shuffled.exists_mapObject {o o' changed : GraphObject}
    (h : Shuffled o o') (hChange : c.mapObject change o = .ok changed) :
    ∃ changed', c.mapObject change o' = .ok changed' ∧
      Shuffled changed changed' := by
  refine ⟨{ changed with
    relations := o'.relations, identifiers := o'.identifiers }, ?_, ?_⟩
  · rw [Committer.mapObject_eq_ok, ← h.others]
    rcases Committer.mapObject_eq_ok.mp hChange with
      ⟨hNone, rfl⟩ | ⟨properties, others, hSome, hOthers, rfl⟩
    · exact .inl ⟨hNone, rfl⟩
    · exact .inr ⟨properties, others, hSome, hOthers, rfl⟩
  · rcases Committer.mapObject_eq_ok.mp hChange with ⟨_, rfl⟩ | ⟨_, _, _,
      _, rfl⟩ <;>
      exact ⟨h.relations, h.identifiers, rfl⟩

theorem exists_mapM_of_shuffled {graph middle shown : List GraphObject}
    (h : List.Forall₂ GraphObject.Shuffled graph middle)
    (hShown : graph.mapM (c.mapObject change) = .ok shown) :
    ∃ shown', middle.mapM (c.mapObject change) = .ok shown' ∧
      List.Forall₂ GraphObject.Shuffled shown shown' := by
  simp only [Committer.mapM_eq_ok] at hShown ⊢
  induction h generalizing shown with
  | nil =>
      cases hShown
      exact ⟨[], .nil, .nil⟩
  | cons hFirst _ ih =>
      cases hShown with
      | cons hChange hRest =>
          obtain ⟨changed', hChange', hShuffled⟩ :=
            hFirst.exists_mapObject hChange
          obtain ⟨others, hOthers, hRest'⟩ := ih hRest
          exact ⟨changed' :: others, .cons hChange' hOthers,
            .cons hShuffled hRest'⟩

/-- What a change makes of an object; an object that it refuses stays as it
is. -/
def orSelf (f : GraphObject → Except Error GraphObject) (o : GraphObject) :
    GraphObject :=
  (f o).toOption.getD o

theorem mapM_eq_ok_map {f : GraphObject → Except Error GraphObject}
    {graph shown : List GraphObject} :
    graph.mapM f = .ok shown ↔ (∀ o ∈ graph, f o = .ok (orSelf f o)) ∧
      graph.map (orSelf f) = shown := by
  have hResult : (fun o o' => f o = .ok o') =
      fun o o' => f o = .ok (orSelf f o) ∧ orSelf f o = o' := by
    funext o o'
    unfold orSelf
    cases f o with
    | error e => simp
    | ok found => simp [Except.toOption]
  rw [Committer.mapM_eq_ok, hResult, List.forall₂_and_left,
    ← List.forall₂_map_left_iff (R := Eq), List.forall₂_eq_eq_eq]

/-- A rearranged graph is changed to a rearranged one. -/
theorem Rearranged.exists_mapM {f : GraphObject → Except Error GraphObject}
    (hId : ∀ o o', f o = .ok o' → o'.id = o.id)
    {graph others shown : List GraphObject} (h : Rearranged graph others)
    (hShown : graph.mapM f = .ok shown) :
    ∃ shown', others.mapM f = .ok shown' ∧ Rearranged shown shown' := by
  obtain ⟨hAll, rfl⟩ := mapM_eq_ok_map.mp hShown
  have hKept (o : GraphObject) : (orSelf f o).id = o.id := by
    unfold orSelf
    cases hResult : f o with
    | error e => rfl
    | ok found => exact hId o found hResult
  refine ⟨others.map (orSelf f), mapM_eq_ok_map.mpr ⟨fun o hMem => ?_, rfl⟩,
    h.map hKept⟩
  exact hAll o (h.perm.mem_iff.mpr hMem)

/-- Reordered graphs have reordered views. -/
theorem Reordered.exists_mapM {graph others shown : List GraphObject}
    (h : Reordered graph others)
    (hShown : graph.mapM (c.mapObject change) = .ok shown) :
    ∃ shown', others.mapM (c.mapObject change) = .ok shown' ∧
      Reordered shown shown' := by
  obtain ⟨middle, hShuffled, hRearranged⟩ := h
  obtain ⟨shownMiddle, hMiddle, hShuffled⟩ :=
    exists_mapM_of_shuffled hShuffled hShown
  obtain ⟨shown', hShown', hRearranged⟩ :=
    hRearranged.exists_mapM (fun _ _ => GraphObject.id_of_mapObject) hMiddle
  exact ⟨shown', hShown', shownMiddle, hShuffled, hRearranged⟩

end Views

/-! ## Reordered documents -/

/-- Whatever is hashed or signed of the public view is the same for two
documents. -/
structure Publisher.PublishedAlike (p : Publisher) (d d' : Document) :
    Prop where
  publicHash : ∃ hash, p.publicHash d.graph = .ok hash ∧
    p.publicHash d'.graph = .ok hash
  signedBytes : ∃ message, p.signedBytes d = .ok message ∧
    p.signedBytes d' = .ok message
  rootHash : ∀ datasetId header, d.id = some datasetId →
    d.header = some header →
    ∃ root, p.rootHash d = .ok root ∧ p.rootHash d' = .ok root

namespace Document

/-- The same document with its graph reordered. -/
structure Reordered (d d' : Document) : Prop where
  graph : SealedGraph.Reordered d.graph d'.graph
  others : { d with graph := d'.graph } = d'

/-- Documents that differ in their graphs only are published alike if these are,
in sorted order. -/
theorem publishedAlike_of_alike {p : Publisher} {d : Document}
    {graph shown shown' : List GraphObject}
    (hShown : p.committer.stripGraph d.graph = .ok shown)
    (hShown' : p.committer.stripGraph graph = .ok shown')

    (hAlike :
      List.Forall₂ GraphObject.Alike (sortGraph shown) (sortGraph shown')) :
    p.PublishedAlike d { d with graph := graph } := by
  constructor
  · refine ⟨graphHash shown, bind_eq_ok.mpr ⟨shown, hShown, rfl⟩, ?_⟩
    rw [graphHash_congr hAlike]
    exact bind_eq_ok.mpr ⟨shown', hShown', rfl⟩
  · have hStrip :
        p.strip { d with graph := graph } = .ok { d with graph := shown' } :=
      Publisher.strip_eq_ok.mpr ⟨shown', hShown', rfl⟩
    have hText :=
      canonicalText_congr hAlike rfl rfl { d with signature := none }
    refine ⟨_,
      Publisher.signedBytes_eq_ok.mpr ⟨_,
        Publisher.strip_eq_ok.mpr ⟨shown, hShown, rfl⟩, rfl⟩,
      Publisher.signedBytes_eq_ok.mpr ⟨_, hStrip, ?_⟩⟩
    exact congrArg Bytes.ofText hText.symm
  · intro datasetId header hId hHeader
    have hItems := Distribution.items_congr hAlike datasetId header.creator
    refine ⟨_, bind_eq_ok.mpr ⟨_, Publisher.distribution_eq_ok.mpr
      ⟨datasetId, header, shown, hId, hHeader, hShown, rfl⟩, rfl⟩,
      bind_eq_ok.mpr ⟨_,
        Publisher.distribution_eq_ok.mpr ⟨datasetId, header, shown', hId,
          hHeader, hShown', rfl⟩, ?_⟩⟩
    rw [Distribution.tree, Distribution.tree, hItems]
    rfl

/-- The canonical text of a document, and whatever is hashed or signed of its
public view, do not depend on the order in which its graph came, unless two
relations or two identifiers of an object have different texts with one
digest. -/
theorem publishedAlike_of_reordered {d d' : Document} (h : d.Reordered d') :
    (∃ o ∈ d.graph, o.Clashes) ∨
      (d.canonicalText = d'.canonicalText ∧
        ∀ (p : Publisher) (shown : List GraphObject),
          p.committer.stripGraph d.graph = .ok shown →
          p.PublishedAlike d d') := by
  by_cases hClash : ∃ o ∈ d.graph, o.Clashes
  · exact .inl hClash
  · refine .inr ⟨?_, fun p shown hShown => ?_⟩
    · have hFree : ∀ o ∈ d.graph, ¬ o.Clashes :=
        fun o hMem hHere => hClash ⟨o, hMem, hHere⟩
      rw [← h.others]
      exact canonicalText_congr (alike_sortGraph h.graph hFree) rfl rfl d
    · obtain ⟨shown', hShown', hReordered⟩ := h.graph.exists_mapM hShown
      rw [← h.others]
      refine publishedAlike_of_alike hShown hShown'
        (alike_sortGraph hReordered fun o hMem => ?_)
      obtain ⟨given, hGiven, hChange⟩ :=
        Committer.exists_of_mem_mapM hShown o hMem
      exact GraphObject.clashes_of_mapObject hChange fun hHere =>
        hClash ⟨given, hGiven, hHere⟩

/-! ## Two orders of one graph -/

/-- An object that has its identifiers in some order. -/
def labelled (identifiers : List Json) : GraphObject :=
  { GraphObject.new "b" with identifiers := some identifiers }

/-- An object with a private entry. -/
def guarded : GraphObject :=
  (GraphObject.new "a").withProperty "private"
    (.array [(PrivateEntry.new (.bool true)).json])

/-- A dataset of three objects, of which the one in the middle has no id. -/
def threeObjects (first last : GraphObject) : Document :=
  { id := some "c", header := some {}, graph := [first, {}, last] }

theorem reordered_threeObjects :
    (threeObjects (labelled [.bool true, .bool false]) guarded).Reordered
      (threeObjects guarded (labelled [.bool false, .bool true])) := by
  refine ⟨⟨[labelled [.bool false, .bool true], {}, guarded], ?_, ?_⟩, rfl⟩
  · have hSelf (o : GraphObject)
        (hNone : o.relations = none ∧ o.identifiers = none) : o.Shuffled o :=
      ⟨by rw [hNone.1]; exact .none, by rw [hNone.2]; exact .none, rfl⟩
    exact .cons ⟨.none, .some (List.Perm.swap _ _ _), rfl⟩
      (.cons (hSelf _ ⟨rfl, rfl⟩) (.cons (hSelf _ ⟨rfl, rfl⟩) .nil))
  · constructor
    · exact (List.reverse_perm _).symm
    · exact .cons (.inr (by decide))
        (.cons (.inl rfl) (.cons (.inr (by decide)) .nil))
    · intro id
      have hLabelled : (labelled [.bool false, .bool true]).id = "b" := rfl
      have hGuarded : guarded.id = "a" := rfl
      by_cases ha : "a" = id
      · subst ha
        rfl
      · by_cases hb : "b" = id
        · subst hb
          rfl
        · simp [threeObjects, List.filter_cons, hLabelled, hGuarded, ha, hb]

set_option maxRecDepth 100000 in
theorem publishedAlike_of_reordered_threeObjects :
    (threeObjects (labelled [.bool true, .bool false]) guarded).Reordered
        (threeObjects guarded (labelled [.bool false, .bool true])) ∧
      (threeObjects (labelled [.bool true, .bool false])
        guarded).canonicalText =
          (threeObjects guarded
            (labelled [.bool false, .bool true])).canonicalText ∧
      Publisher.defaultPublisher.PublishedAlike
        (threeObjects (labelled [.bool true, .bool false]) guarded)
        (threeObjects guarded (labelled [.bool false, .bool true])) := by
  have hFree :
      ¬ ∃ o ∈ (threeObjects (labelled [.bool true, .bool false]) guarded).graph,
      o.Clashes := by
    decide +kernel
  have hSome : (Publisher.defaultPublisher.committer.stripGraph
      (threeObjects (labelled [.bool true, .bool false])
        guarded).graph).toOption.isSome := by
    decide +kernel
  obtain ⟨shown, hShown⟩ := Option.isSome_iff_exists.mp hSome
  rcases publishedAlike_of_reordered reordered_threeObjects with hClash
    | ⟨hText, hAlike⟩
  · exact absurd hClash hFree
  · exact ⟨reordered_threeObjects, hText,
      hAlike _ shown (toOption_eq_some.mp hShown)⟩

end Document
end SealedGraph
