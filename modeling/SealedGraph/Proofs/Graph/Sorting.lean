import Mathlib
import SealedGraph.Graph.Canonical

/-!
# Sorted graphs

Sorting puts the things of a list in another order, and leaves what is sorted
as it is.  Objects are sorted by ids that several of them may share, and those
without an id stay where they are; so two graphs are sorted alike when they
differ in the order of their objects only, with the same objects without id in
the same places and the objects of each id in one order.

What is sorted by ids depends on the ids alone: graphs whose objects are
related one by one are still so when they are sorted, if related objects have
one id.

## Main results

* `sortByDigest_sortByDigest`, `sortById_sortById`, `sortGraph_sortGraph`:
  sorting twice.
* `perm_sortByDigest`, `perm_sortById`: sorting loses nothing.
* `sortById_eq_of_rearranged`: when two graphs are sorted alike.
* `forall₂_sortById`: sorting by ids depends on the ids alone.
-/

namespace SealedGraph

/-! ## The order of digests -/

namespace Word

theorem le_total (a b : Word) : (a.le b || b.le a) = true := by
  simp only [le, Bool.or_eq_true, decide_eq_true_eq]
  exact Std.le_total

theorem le_trans (a b c : Word) (hab : a.le b = true) (hbc : b.le c = true) :
    a.le c = true := by
  simp only [le, decide_eq_true_eq] at *
  exact List.le_trans hab hbc

theorem le_antisymm {a b : Word} (hab : a.le b = true) (hba : b.le a = true) :
    a = b := by
  simp only [le, decide_eq_true_eq] at *
  exact Word.ext (List.le_antisymm hab hba)

end Word

/-! ## Sorting by digests -/

section SortByDigest

variable {α : Type} (json : α → Json) (items : List α)

/-- The digests are put beside the things only so that none is computed
twice. -/
theorem sortByDigest_eq_mergeSort :
    sortByDigest json items = items.mergeSort fun a b =>
      (json a).digest.le (json b).digest := by
  have hKeyed :=
    List.map_mergeSort (f := fun item => ((json item).digest, item))
      (r := fun a b => (json a).digest.le (json b).digest)
      (s := fun a b => a.1.le b.1) (l := items) fun _ _ _ _ => rfl
  rw [sortByDigest, ← hKeyed, List.map_map]
  exact List.map_id _

theorem perm_sortByDigest : (sortByDigest json items).Perm items := by
  rw [sortByDigest_eq_mergeSort]
  exact List.mergeSort_perm items _

theorem pairwise_sortByDigest :
    (sortByDigest json items).Pairwise fun a b =>
      (json a).digest.le (json b).digest = true := by
  rw [sortByDigest_eq_mergeSort]
  exact List.pairwise_mergeSort
    (fun a b c => Word.le_trans (json a).digest (json b).digest (json c).digest)
    (fun a b => Word.le_total (json a).digest (json b).digest) items

theorem sortByDigest_sortByDigest :
    sortByDigest json (sortByDigest json items) = sortByDigest json items := by
  rw [sortByDigest_eq_mergeSort json (sortByDigest json items)]
  exact List.mergeSort_of_pairwise (pairwise_sortByDigest json items)

end SortByDigest

/-! ## Sorting things by a key -/

section Ties

variable {α κ : Type} [DecidableEq κ] {key : α → κ} {le : κ → κ → Bool}

/-- Sorting is stable: the things of each key stay in their order. -/
theorem filter_mergeSort
    (hTrans : ∀ j k l, le j k = true → le k l = true → le j l = true)
    (hTotal : ∀ j k, (le j k || le k j) = true) (xs : List α) (k : κ) :
    (xs.mergeSort fun a b => le (key a) (key b)).filter (fun x => key x = k) =
      xs.filter fun x => key x = k := by
  have hTied : (xs.filter fun x => key x = k).Pairwise fun a b =>
      le (key a) (key b) = true := by
    refine List.pairwise_of_forall_mem_list fun a ha b hb => ?_
    have hKeys : key a = key b :=
      (of_decide_eq_true (List.mem_filter.mp ha).2).trans
        (of_decide_eq_true (List.mem_filter.mp hb).2).symm
    have hSelf := hTotal (key b) (key b)
    rw [Bool.or_self] at hSelf
    rw [hKeys]
    exact hSelf
  have hKept :=
    (List.sublist_mergeSort (fun a b c => hTrans (key a) (key b) (key c))
      (fun a b => hTotal (key a) (key b)) hTied List.filter_sublist).filter
      fun x => decide (key x = k)
  rw [List.filter_filter] at hKept
  simp only [Bool.and_self] at hKept
  exact (hKept.eq_of_length
    ((List.mergeSort_perm xs _).filter _).length_eq.symm).symm

/-- Lists in order with the same things of each key are the same. -/
theorem eq_of_filter_eq
    (hAntisymm : ∀ {j k}, le j k = true → le k j = true → j = k)
    (hRefl : ∀ k, le k k = true) {xs : List α} : ∀ {ys : List α},
    xs.Pairwise (fun a b => le (key a) (key b) = true) →
    ys.Pairwise (fun a b => le (key a) (key b) = true) →
    (∀ k, xs.filter (fun x => key x = k) = ys.filter fun y => key y = k) →
    xs = ys := by
  induction xs with
  | nil =>
      intro ys _ _ hSame
      cases ys with
      | nil => rfl
      | cons y ys => simpa using hSame (key y)
  | cons x xs ih =>
      intro ys hxs hys hSame
      cases ys with
      | nil => simpa using hSame (key x)
      | cons y ys =>
          obtain ⟨hx, hxs⟩ := List.pairwise_cons.mp hxs
          obtain ⟨hy, hRest⟩ := List.pairwise_cons.mp hys
          have hLow : le (key x) (key y) = true := by
            have hMem : y ∈ (x :: xs).filter fun z => key z = key y := by
              rw [hSame (key y)]
              simp
            rcases List.mem_cons.mp (List.mem_filter.mp hMem).1 with rfl | hMem
            · exact hRefl (key y)
            · exact hx y hMem
          have hHigh : le (key y) (key x) = true := by
            have hMem : x ∈ (y :: ys).filter fun z => key z = key x := by
              rw [← hSame (key x)]
              simp
            rcases List.mem_cons.mp (List.mem_filter.mp hMem).1 with rfl | hMem
            · exact hRefl (key x)
            · exact hy x hMem
          have hKeys := hAntisymm hLow hHigh
          have hHeads := hSame (key x)
          rw [List.filter_cons_of_pos (by simp),
            List.filter_cons_of_pos (by simp [hKeys])] at hHeads
          obtain ⟨rfl, _⟩ := List.cons.inj hHeads
          refine congrArg (x :: ·) (ih hxs hRest fun k => ?_)
          have hTails := hSame k
          by_cases hk : key x = k
          · simpa [hk] using hTails
          · simpa [hk] using hTails

end Ties

section Keys

variable {α β : Type} {key : α → String}

/-- The order of texts. -/
def textLe (a b : String) : Bool := decide (a ≤ b)

theorem textLe_trans (a b c : String) (hab : textLe a b = true)
    (hbc : textLe b c = true) :
    textLe a c = true := by
  simp only [textLe, decide_eq_true_eq] at *
  exact String.le_trans hab hbc

theorem textLe_total (a b : String) : (textLe a b || textLe b a) = true := by
  simp only [textLe, Bool.or_eq_true, decide_eq_true_eq]
  exact String.le_total a b

theorem textLe_antisymm {a b : String} (hab : textLe a b = true)
    (hba : textLe b a = true) : a = b :=
  String.le_antisymm (of_decide_eq_true hab) (of_decide_eq_true hba)

theorem textLe_refl (a : String) : textLe a a = true :=
  decide_eq_true (String.le_refl a)

/-- The order by a key that is a text. -/
def keyLe (key : α → String) (a b : α) : Bool := textLe (key a) (key b)

theorem keyLe_trans (a b c : α) :
    keyLe key a b = true → keyLe key b c = true → keyLe key a c = true :=
  textLe_trans (key a) (key b) (key c)

theorem keyLe_total (a b : α) : (keyLe key a b || keyLe key b a) = true :=
  textLe_total (key a) (key b)

/-- Lists that are related one by one are sorted alike, if related things have
one key. -/
theorem forall₂_mergeSort {R : α → β → Prop} {key : α → String}
    {key' : β → String} (hKey : ∀ a b, R a b → key a = key' b) {xs : List α}
    {ys : List β} (h : List.Forall₂ R xs ys) :
    List.Forall₂ R (xs.mergeSort (keyLe key)) (ys.mergeSort (keyLe key')) := by
  obtain ⟨hLength, hRelated⟩ := List.forall₂_iff_zip.mp h
  have hFst : (xs.zip ys).map Prod.fst = xs :=
    List.map_fst_zip (Nat.le_of_eq hLength)
  have hSnd : (xs.zip ys).map Prod.snd = ys :=
    List.map_snd_zip (Nat.le_of_eq hLength.symm)
  have hLeft :=
    List.map_mergeSort (f := Prod.fst) (r := fun p q => keyLe key p.1 q.1)
      (s := keyLe key) (l := xs.zip ys) fun _ _ _ _ => rfl
  have hRight :=
    List.map_mergeSort (f := Prod.snd) (r := fun p q => keyLe key p.1 q.1)
      (s := keyLe key') (l := xs.zip ys) fun p hp q hq => by
        simp only [keyLe, hKey _ _ (hRelated hp), hKey _ _ (hRelated hq)]
  rw [hFst] at hLeft
  rw [hSnd] at hRight
  rw [← hLeft, ← hRight, List.forall₂_map_left_iff, List.forall₂_map_right_iff,
    List.forall₂_same]
  exact fun p hp => hRelated (List.mem_mergeSort.mp hp)

end Keys

/-! ## Sorting by ids -/

/-- The objects with an id, in their order. -/
def identified (graph : List GraphObject) : List GraphObject :=
  graph.filter fun o => o.id ≠ ""

/-- Two graphs have the same objects without id, in the same places. -/
def SamePlaces (graph others : List GraphObject) : Prop :=
  List.Forall₂ (fun o o' => o = o' ∨ o.id ≠ "" ∧ o'.id ≠ "") graph others

/-- The same objects in another order: those without id keep their places, and
those of one id their order. -/
structure Rearranged (graph others : List GraphObject) : Prop where
  perm : graph.Perm others
  places : SamePlaces graph others
  order :
    ∀ id, graph.filter (fun o => o.id = id) = others.filter fun o => o.id = id

section FillPlaces

variable {graph others found : List GraphObject}

theorem identified_cons_of_ne {o : GraphObject} (h : o.id ≠ "") :
    identified (o :: graph) = o :: identified graph :=
  List.filter_cons_of_pos (decide_eq_true h)

theorem identified_cons_of_eq {o : GraphObject} (h : o.id = "") :
    identified (o :: graph) = identified graph :=
  List.filter_cons_of_neg (by simp [h])

theorem fillPlaces_cons_of_eq {place : GraphObject} (h : place.id = "") :
    fillPlaces (place :: graph) found = place :: fillPlaces graph found := by
  simp [fillPlaces, h]

theorem fillPlaces_cons_of_ne {place next : GraphObject} (h : place.id ≠ "") :
    fillPlaces (place :: graph) (next :: found) =
      next :: fillPlaces graph found := by
  simp [fillPlaces, h]

/-- Places are filled with as many objects as there are, all of which have an
id: then places stay places, and the objects come out again. -/
theorem fillPlaces_spec (hLength : found.length = (identified graph).length)
    (hNamed : ∀ o ∈ found, o.id ≠ "") :
    SamePlaces (fillPlaces graph found) graph ∧
      identified (fillPlaces graph found) = found := by
  induction graph generalizing found with
  | nil =>
      rw [List.length_eq_zero_iff.mp hLength]
      exact ⟨.nil, rfl⟩
  | cons place rest ih =>
      by_cases hPlace : place.id = ""
      · rw [identified_cons_of_eq hPlace] at hLength
        obtain ⟨hPlaces, hFound⟩ := ih hLength hNamed
        rw [fillPlaces_cons_of_eq hPlace, identified_cons_of_eq hPlace]
        exact ⟨.cons (.inl rfl) hPlaces, hFound⟩
      · rw [identified_cons_of_ne hPlace] at hLength
        cases found with
        | nil => cases hLength
        | cons next found =>
            obtain ⟨hNext, hNamed⟩ := List.forall_mem_cons.mp hNamed
            obtain ⟨hPlaces, hFound⟩ := ih (Nat.succ.inj hLength) hNamed
            rw [fillPlaces_cons_of_ne hPlace,
              identified_cons_of_ne hNext, hFound]
            exact ⟨.cons (.inr ⟨hNext, hPlace⟩) hPlaces, rfl⟩

theorem fillPlaces_identified :
    fillPlaces graph (identified graph) = graph := by
  induction graph with
  | nil => rfl
  | cons place rest ih =>
      by_cases hPlace : place.id = ""
      · rw [identified_cons_of_eq hPlace, fillPlaces_cons_of_eq hPlace, ih]
      · rw [identified_cons_of_ne hPlace, fillPlaces_cons_of_ne hPlace, ih]

/-- Of a graph that is filled, only the places matter. -/
theorem fillPlaces_congr (h : SamePlaces graph others)
    (hLength : (identified graph).length ≤ found.length) :
    fillPlaces graph found = fillPlaces others found := by
  induction h generalizing found with
  | nil => rfl
  | @cons place place' rest rest' hPlace _ ih =>
      rcases hPlace with rfl | ⟨hPlace, hPlace'⟩
      · by_cases hEmpty : place.id = ""
        · rw [identified_cons_of_eq hEmpty] at hLength
          rw [fillPlaces_cons_of_eq hEmpty, fillPlaces_cons_of_eq hEmpty,
            ih hLength]
        · rw [identified_cons_of_ne hEmpty] at hLength
          cases found with
          | nil => cases hLength
          | cons next found =>
              rw [fillPlaces_cons_of_ne hEmpty, fillPlaces_cons_of_ne hEmpty,
                ih (Nat.le_of_succ_le_succ hLength)]
      · rw [identified_cons_of_ne hPlace] at hLength
        cases found with
        | nil => cases hLength
        | cons next found =>
            rw [fillPlaces_cons_of_ne hPlace, fillPlaces_cons_of_ne hPlace',
              ih (Nat.le_of_succ_le_succ hLength)]

theorem forall₂_fillPlaces {R : GraphObject → GraphObject → Prop}
    (hId : ∀ o o', R o o' → o.id = o'.id) (h : List.Forall₂ R graph others)
    {found' : List GraphObject} (hFound : List.Forall₂ R found found') :
    List.Forall₂ R (fillPlaces graph found) (fillPlaces others found') := by
  induction h generalizing found found' with
  | nil => exact .nil
  | @cons place place' rest rest' hPlace _ ih =>
      have hSame := hId _ _ hPlace
      by_cases hEmpty : place.id = ""
      · rw [fillPlaces_cons_of_eq hEmpty,
          fillPlaces_cons_of_eq (hSame ▸ hEmpty)]
        exact .cons hPlace (ih hFound)
      · cases hFound with
        | nil =>
            rw [fillPlaces, fillPlaces, if_neg hEmpty, if_neg (hSame ▸ hEmpty)]
            exact .cons hPlace (ih .nil)
        | cons hNext hRest =>
            rw [fillPlaces_cons_of_ne hEmpty,
              fillPlaces_cons_of_ne (hSame ▸ hEmpty)]
            exact .cons hNext (ih hRest)

end FillPlaces

section SortById

variable {graph others : List GraphObject}

theorem sortById_eq (graph : List GraphObject) :
    sortById graph =
      fillPlaces graph ((identified graph).mergeSort (keyLe GraphObject.id)) :=
  rfl

/-- Sorting by ids keeps the places, and sorts what stands in the others. -/
theorem sortById_spec (graph : List GraphObject) :
    SamePlaces (sortById graph) graph ∧
    identified (sortById graph) =
      (identified graph).mergeSort (keyLe GraphObject.id) := by
  refine fillPlaces_spec (List.length_mergeSort _) fun o hMem => ?_
  exact of_decide_eq_true (List.mem_filter.mp (List.mem_mergeSort.mp hMem)).2

theorem pairwise_identified (graph : List GraphObject) :
    ((identified graph).mergeSort (keyLe GraphObject.id)).Pairwise
      fun a b => keyLe GraphObject.id a b = true :=
  List.pairwise_mergeSort keyLe_trans keyLe_total _

theorem sortById_sortById : sortById (sortById graph) = sortById graph := by
  obtain ⟨hPlaces, hSorted⟩ := sortById_spec graph
  rw [sortById_eq (sortById graph), hSorted,
    List.mergeSort_of_pairwise (pairwise_identified graph), ← hSorted]
  exact fillPlaces_identified

/-- Objects without id that stand in the same places are the same. -/
theorem SamePlaces.filter_eq (h : SamePlaces graph others) :
    graph.filter (fun o => o.id = "") = others.filter fun o => o.id = "" := by
  induction h with
  | nil => rfl
  | cons hPlace _ ih =>
      rcases hPlace with rfl | ⟨hPlace, hPlace'⟩
      · rw [List.filter_cons, List.filter_cons, ih]
      · rw [List.filter_cons_of_neg (by simpa using hPlace),
          List.filter_cons_of_neg (by simpa using hPlace'), ih]

theorem perm_sortById : (sortById graph).Perm graph := by
  obtain ⟨hPlaces, hSorted⟩ := sortById_spec graph
  have hSplit (objects : List GraphObject) :
      (objects.filter (fun o => o.id = "") ++ identified objects).Perm
        objects := by
    have hParts :=
      List.filter_append_perm
        (fun o : GraphObject => decide (o.id = "")) objects
    simpa only [identified, ne_eq, decide_not] using hParts
  have hMiddle :
      ((sortById graph).filter (fun o => o.id = "") ++
        identified (sortById graph)).Perm
      (graph.filter (fun o => o.id = "") ++ identified graph) := by
    rw [hPlaces.filter_eq, hSorted]
    exact (List.mergeSort_perm _ _).append_left _
  exact (hSplit _).symm.trans (hMiddle.trans (hSplit _))

/-- Two graphs with the same objects are sorted alike, if those without id have
the same places and those of one id the same order. -/
theorem sortById_eq_of_rearranged (h : Rearranged graph others) :
    sortById graph = sortById others := by
  have hFound : (identified graph).mergeSort (keyLe GraphObject.id) =
      (identified others).mergeSort (keyLe GraphObject.id) := by
    refine eq_of_filter_eq textLe_antisymm textLe_refl
      (pairwise_identified graph) (pairwise_identified others) fun id => ?_
    have hKept (objects : List GraphObject) :
        ((identified objects).mergeSort (keyLe GraphObject.id)).filter
          (fun o => o.id = id) =
            (identified objects).filter fun o => o.id = id :=
      filter_mergeSort textLe_trans textLe_total (identified objects) id
    rw [hKept, hKept, identified, identified, List.filter_filter,
      List.filter_filter]
    simp only [Bool.and_comm (decide (_ = id))]
    rw [← List.filter_filter, ← List.filter_filter, h.order id]
  have hLength : (identified graph).length ≤
      ((identified others).mergeSort (keyLe GraphObject.id)).length := by
    rw [← hFound, List.length_mergeSort]
  rw [sortById_eq, sortById_eq, hFound]
  exact fillPlaces_congr h.places hLength

/-- Graphs whose objects are related one by one are still so when they are
sorted. -/
theorem forall₂_sortById {R : GraphObject → GraphObject → Prop}
    (hId : ∀ o o', R o o' → o.id = o'.id) (h : List.Forall₂ R graph others) :
    List.Forall₂ R (sortById graph) (sortById others) := by
  refine forall₂_fillPlaces hId h (forall₂_mergeSort hId (List.rel_filter ?_ h))
  intro o o' hRelated
  show decide (o.id ≠ "") = true ↔ decide (o'.id ≠ "") = true
  rw [hId o o' hRelated]

/-- A change that keeps the ids can be made before or after sorting. -/
theorem map_sortById {f : GraphObject → GraphObject}
    (hId : ∀ o, (f o).id = o.id) :
    (sortById graph).map f = sortById (graph.map f) := by
  have hRelated : List.Forall₂ (fun o o' => f o = o') graph (graph.map f) := by
    rw [List.forall₂_map_right_iff, List.forall₂_same]
    exact fun _ _ => rfl
  have hSorted := forall₂_sortById (fun o o' h => by rw [← h, hId]) hRelated
  rw [← List.forall₂_map_left_iff (R := Eq), List.forall₂_eq_eq_eq] at hSorted
  exact hSorted

theorem Rearranged.map {f : GraphObject → GraphObject}
    (hId : ∀ o, (f o).id = o.id) (h : Rearranged graph others) :
    Rearranged (graph.map f) (others.map f) := by
  constructor
  · exact h.perm.map f
  · rw [SamePlaces, List.forall₂_map_left_iff, List.forall₂_map_right_iff]
    refine h.places.imp fun o o' hPlace => ?_
    rcases hPlace with rfl | hIds
    · exact .inl rfl
    · rw [hId, hId]
      exact .inr hIds
  · intro id
    rw [List.filter_map, List.filter_map]
    simp only [Function.comp_def, hId]
    rw [h.order id]

end SortById

/-! ## Sorting graphs -/

theorem GraphObject.sortParts_sortParts (o : GraphObject) :
    o.sortParts.sortParts = o.sortParts := by
  obtain ⟨id, type, identifiers, properties, relations, extra⟩ := o
  cases identifiers <;> cases relations <;>
    simp only [sortParts, Option.map_none, Option.map_some,
      sortByDigest_sortByDigest]

/-- A sorted graph is its own sorted graph. -/
theorem sortGraph_sortGraph (graph : List GraphObject) :
    sortGraph (sortGraph graph) = sortGraph graph := by
  have hParts :
      (sortById (graph.map GraphObject.sortParts)).map GraphObject.sortParts =
        sortById (graph.map GraphObject.sortParts) := by
    rw [map_sortById (f := GraphObject.sortParts) fun _ => rfl, List.map_map]
    exact congrArg sortById (List.map_congr_left fun o _ =>
      o.sortParts_sortParts)
  rw [sortGraph, sortGraph, hParts, sortById_sortById]

/-- The objects of a sorted graph are those of the graph, with their parts
sorted. -/
theorem mem_sortGraph {graph : List GraphObject} {o : GraphObject} :
    o ∈ sortGraph graph ↔ ∃ given ∈ graph, given.sortParts = o := by
  rw [sortGraph, perm_sortById.mem_iff, List.mem_map]

end SealedGraph
