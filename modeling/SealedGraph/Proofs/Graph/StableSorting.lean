import Mathlib
import SealedGraph.Proofs.Graph.Sorting

/-!
# What a sorted graph is

A stable sort of a list is a permutation of it, in ascending order, in which
things of one key stay in the order in which they came.  There is only one such
list, so this says all about sorting.

A graph is sorted at three places: the relations and the identifiers of each
object by the digests of their texts, and the objects by their ids.  An object
without id keeps its index.

The objects can be sorted in their own places: those with an id are taken out,
which leaves empty objects behind, and are put back in order.  Each place that
was emptied is filled again, so that the graph is the same as when it is built
anew.

## Main results

* `stablySorted_mergeSort`, `StablySorted.unique`: there is one stable sort of a
  list.
* `sortInPlace_eq_sortById`: sorting in place leaves no empty object behind.
* `sortedForm_iff`: which graph is the sorted one.
* `sortGraph_stable`: all of this of the sorted graph.
-/

namespace SealedGraph

/-! ## Stable sorts -/

section StablySorted

variable {α κ : Type} [DecidableEq κ] {le : κ → κ → Bool} {key : α → κ}
  {given sorted others : List α}

/-- The things of a list in ascending order of their keys, those of one key in
their former order. -/
structure StablySorted (le : κ → κ → Bool) (key : α → κ)
    (given sorted : List α) : Prop where
  perm : sorted.Perm given
  ascending : sorted.Pairwise fun a b => le (key a) (key b) = true
  ties :
    ∀ k, sorted.filter (fun x => key x = k) = given.filter fun x => key x = k

theorem stablySorted_mergeSort
    (hTrans : ∀ j k l, le j k = true → le k l = true → le j l = true)
    (hTotal : ∀ j k, (le j k || le k j) = true) (given : List α) :
    StablySorted le key given (given.mergeSort fun a b =>
      le (key a) (key b)) := by
  constructor
  · exact List.mergeSort_perm given _
  · exact List.pairwise_mergeSort (fun a b c => hTrans (key a) (key b) (key c))
      (fun a b => hTotal (key a) (key b)) given
  · exact filter_mergeSort hTrans hTotal given

theorem StablySorted.unique
    (hAntisymm : ∀ {j k}, le j k = true → le k j = true → j = k)
    (hRefl : ∀ k, le k k = true) (h : StablySorted le key given sorted)
    (h' : StablySorted le key given others) : sorted = others :=
  eq_of_filter_eq hAntisymm hRefl h.ascending h'.ascending fun k =>
    (h.ties k).trans (h'.ties k).symm

end StablySorted

/-! ## Parts of an object -/

section Digests

variable {α : Type} {json : α → Json} {items sorted : List α}

theorem stablySorted_sortByDigest (json : α → Json) (items : List α) :
    StablySorted Word.le (fun item => (json item).digest) items
      (sortByDigest json items) := by
  rw [sortByDigest_eq_mergeSort]
  exact stablySorted_mergeSort Word.le_trans Word.le_total items

theorem sortByDigest_eq_iff : sortByDigest json items = sorted ↔
    StablySorted Word.le (fun item => (json item).digest) items sorted := by
  have hRefl (w : Word) : w.le w = true := by
    have hSelf := Word.le_total w w
    rwa [Bool.or_self] at hSelf
  constructor
  · rintro rfl
    exact stablySorted_sortByDigest json items
  · exact (stablySorted_sortByDigest json items).unique Word.le_antisymm hRefl

/-- The same for things that may be missing. -/
theorem map_sortByDigest_eq_iff {items sorted : Option (List α)} :
    items.map (sortByDigest json) = sorted ↔
      Option.Rel (StablySorted Word.le fun item => (json item).digest)
        items sorted := by
  cases items with
  | none =>
      cases sorted with
      | none => exact ⟨fun _ => .none, fun _ => rfl⟩
      | some found => exact ⟨nofun, nofun⟩
  | some given =>
      cases sorted with
      | none => exact ⟨nofun, nofun⟩
      | some found =>
          rw [Option.map_some, Option.some.injEq, sortByDigest_eq_iff]
          exact ⟨.some, fun h => by cases h; assumption⟩

end Digests

namespace GraphObject

/-- The same object, with its relations and its identifiers in ascending order
of the digests of their texts. -/
structure PartsSorted (o sorted : GraphObject) : Prop where
  relations :
    Option.Rel (StablySorted Word.le fun r => r.json.digest)
      o.relations sorted.relations
  identifiers :
    Option.Rel (StablySorted Word.le fun identifier => identifier.digest)
      o.identifiers sorted.identifiers
  others :
    sorted =
      { o with
        relations := sorted.relations, identifiers := sorted.identifiers }

theorem sortParts_eq_iff {o sorted : GraphObject} :
    o.sortParts = sorted ↔ o.PartsSorted sorted := by
  constructor
  · rintro rfl
    exact ⟨map_sortByDigest_eq_iff.mp rfl, map_sortByDigest_eq_iff.mp rfl, rfl⟩
  · rintro ⟨hRelations, hIdentifiers, hOthers⟩
    rw [hOthers, sortParts, map_sortByDigest_eq_iff.mpr hRelations,
      map_sortByDigest_eq_iff.mpr hIdentifiers]

end GraphObject

/-! ## Objects in their own places -/

/-- The indices of the objects with an id, counted from `first`. -/
def places (first : Nat) : List GraphObject → List Nat
  | [] => []
  | o :: rest =>
      if o.id = "" then places (first + 1) rest
        else first :: places (first + 1) rest

/-- Takes out the objects at some places, and leaves an empty object in each. -/
def takeOut : List Nat → List GraphObject → List GraphObject × List GraphObject
  | [], graph => ([], graph)
  | place :: rest, graph =>
      let taken := takeOut rest (graph.set place {})
      (graph.getD place {} :: taken.1, taken.2)

/-- Puts an object into each of some places. -/
def putBack (graph : List GraphObject) (objects : List (Nat × GraphObject)) :
    List GraphObject :=
  objects.foldl (fun graph object => graph.set object.1 object.2) graph

/-- Sorts objects by id, each of those with an id being moved from its place to
another one. -/
def sortInPlace (graph : List GraphObject) : List GraphObject :=
  let taken := takeOut (places 0 graph) graph
  putBack taken.2
    ((places 0 graph).zip (taken.1.mergeSort (keyLe GraphObject.id)))

/-- The graph with an empty object for each one that has an id. -/
def emptied (graph : List GraphObject) : List GraphObject :=
  graph.map fun o => if o.id = "" then o else {}

/-- What stands before the places stays as it is. -/
theorem takeOut_places (front graph : List GraphObject) :
    takeOut (places front.length graph) (front ++ graph) =
      (identified graph, front ++ emptied graph) := by
  induction graph generalizing front with
  | nil => rfl
  | cons o rest ih =>
      -- Whatever stands in this place belongs to the front for the places that
      -- follow.
      have hNext (next : GraphObject) :
          takeOut (places (front.length + 1) rest) (front ++ next :: rest) =
            (identified rest, front ++ next :: emptied rest) := by
        have hStep := ih (front ++ [next])
        simpa using hStep
      by_cases hId : o.id = ""
      · rw [places, if_pos hId, hNext, identified_cons_of_eq hId, emptied,
          emptied, List.map_cons, if_pos hId]
      · have hSet :
            (front ++ o :: rest).set front.length {} = front ++ {} :: rest := by
          simp
        have hGet : (front ++ o :: rest).getD front.length {} = o := by simp
        rw [places, if_neg hId, takeOut, hSet, hGet, hNext,
          identified_cons_of_ne hId, emptied, emptied, List.map_cons,
          if_neg hId]

/-- Every empty object is replaced, if there are as many objects as places. -/
theorem putBack_places (front graph found : List GraphObject)
    (hLength : found.length = (identified graph).length) :
    putBack (front ++ emptied graph) ((places front.length graph).zip found) =
      front ++ fillPlaces graph found := by
  induction graph generalizing front found with
  | nil => rfl
  | cons o rest ih =>
      have hNext (next : GraphObject) (found : List GraphObject)
          (hLength : found.length = (identified rest).length) :
          putBack (front ++ next :: emptied rest)
            ((places (front.length + 1) rest).zip found) =
              front ++ next :: fillPlaces rest found := by
        have hStep := ih (front ++ [next]) found hLength
        simpa using hStep
      by_cases hId : o.id = ""
      · rw [identified_cons_of_eq hId] at hLength
        rw [places, if_pos hId, fillPlaces_cons_of_eq hId,
          ← hNext o found hLength, emptied, emptied, List.map_cons, if_pos hId]
      · rw [identified_cons_of_ne hId] at hLength
        cases found with
        | nil => cases hLength
        | cons next found =>
            have hSet : (front ++ {} :: emptied rest).set front.length next =
                front ++ next :: emptied rest := by simp
            rw [places, if_neg hId, fillPlaces_cons_of_ne hId,
              ← hNext next found (Nat.succ.inj hLength), ← hSet, emptied,
              List.map_cons, if_neg hId]
            rfl

/-- Sorting in place leaves no empty object behind. -/
theorem sortInPlace_eq_sortById (graph : List GraphObject) :
    sortInPlace graph = sortById graph := by
  have hTaken :
      takeOut (places 0 graph) graph = (identified graph, emptied graph) :=
    takeOut_places [] graph
  rw [sortInPlace, hTaken]
  exact putBack_places [] graph _ (List.length_mergeSort _)

/-! ## The sorted graph -/

/-- The same objects, those with an id in ascending order of their ids and those
without at the same indices. -/
structure ArrangedById (graph sorted : List GraphObject) : Prop where
  perm : sorted.Perm graph
  unnamed : ∀ (i : Nat) (o : GraphObject), graph[i]? = some o → o.id = "" →
    sorted[i]? = some o
  named : ∀ (i : Nat) (o : GraphObject), graph[i]? = some o → o.id ≠ "" →
    ∃ o' : GraphObject, sorted[i]? = some o' ∧ o'.id ≠ ""
  ascending :
    StablySorted textLe GraphObject.id (identified graph) (identified sorted)

/-- First the parts of each object are sorted, and then the objects. -/
def SortedForm (graph sorted : List GraphObject) : Prop :=
  ∃ parts, List.Forall₂ GraphObject.PartsSorted graph parts ∧
    ArrangedById parts sorted

section SortedForm

variable {graph sorted : List GraphObject}

theorem SamePlaces.getElem? (h : SamePlaces sorted graph) {i : Nat}
    {o : GraphObject} (ho : graph[i]? = some o) :
    ∃ o', sorted[i]? = some o' ∧ (o' = o ∨ o'.id ≠ "" ∧ o.id ≠ "") := by
  induction h generalizing i with
  | nil => cases ho
  | @cons o' _ _ _ hPlace _ ih =>
      cases i with
      | zero =>
          cases ho
          exact ⟨o', rfl, hPlace⟩
      | succ i => exact ih ho

theorem ArrangedById.samePlaces (h : ArrangedById graph sorted) :
    SamePlaces sorted graph := by
  refine List.forall₂_iff_get.mpr ⟨h.perm.length_eq, fun i hSorted hGraph => ?_⟩
  have ho : graph[i]? = some (graph.get ⟨i, hGraph⟩) :=
    List.getElem?_eq_getElem hGraph
  have ho' : sorted[i]? = some (sorted.get ⟨i, hSorted⟩) :=
    List.getElem?_eq_getElem hSorted
  by_cases hId : (graph.get ⟨i, hGraph⟩).id = ""
  · have hSame := h.unnamed i _ ho hId
    rw [ho'] at hSame
    exact .inl (Option.some.inj hSame)
  · obtain ⟨_, hFound, hNamed⟩ := h.named i _ ho hId
    rw [ho'] at hFound
    cases hFound
    exact .inr ⟨hNamed, hId⟩

theorem arrangedById_sortById (graph : List GraphObject) :
    ArrangedById graph (sortById graph) := by
  obtain ⟨hPlaces, hSorted⟩ := sortById_spec graph
  constructor
  · exact perm_sortById
  · intro i o ho hId
    obtain ⟨o', ho', rfl | hNamed⟩ := hPlaces.getElem? ho
    · exact ho'
    · exact absurd hId hNamed.2
  · intro i o ho hId
    obtain ⟨o', ho', rfl | hNamed⟩ := hPlaces.getElem? ho
    · exact ⟨o', ho', hId⟩
    · exact ⟨o', ho', hNamed.1⟩
  · rw [hSorted]
    exact stablySorted_mergeSort textLe_trans textLe_total (identified graph)

theorem sortById_eq_iff :
    sortById graph = sorted ↔ ArrangedById graph sorted := by
  constructor
  · rintro rfl
    exact arrangedById_sortById graph
  · intro h
    have hFound :
        (identified graph).mergeSort (keyLe GraphObject.id) =
          identified sorted :=
      (stablySorted_mergeSort textLe_trans textLe_total
        (identified graph)).unique textLe_antisymm textLe_refl h.ascending
    calc sortById graph
      _ = fillPlaces graph (identified sorted) := by rw [sortById_eq, hFound]
      _ = fillPlaces sorted (identified sorted) :=
        (fillPlaces_congr h.samePlaces (Nat.le_refl _)).symm
      _ = sorted := fillPlaces_identified

/-- The sorted graph is the only one of its form. -/
theorem sortedForm_iff :
    SortedForm graph sorted ↔ sortGraph graph = sorted := by
  have hParts (parts : List GraphObject) :
      List.Forall₂ GraphObject.PartsSorted graph parts ↔
      graph.map GraphObject.sortParts = parts := by
    rw [← List.forall₂_eq_eq_eq, List.forall₂_map_left_iff]
    simp only [GraphObject.sortParts_eq_iff]
  simp only [SortedForm, hParts, ← sortById_eq_iff]
  constructor
  · rintro ⟨parts, rfl, hSorted⟩
    exact hSorted
  · exact fun hSorted => ⟨_, rfl, hSorted⟩

end SortedForm

/-- The sorted graph is the only one that has the objects of the graph, each
with its parts sorted, those with an id in order and those without at their
indices.  It is made in place, and sorting it again changes nothing. -/
theorem sortGraph_stable (graph : List GraphObject) :
    (∀ sorted, sortGraph graph = sorted ↔ SortedForm graph sorted) ∧
      sortInPlace (graph.map GraphObject.sortParts) = sortGraph graph ∧
      sortGraph (sortGraph graph) = sortGraph graph :=
  ⟨fun _ => sortedForm_iff.symm, sortInPlace_eq_sortById _,
    sortGraph_sortGraph graph⟩

end SealedGraph
