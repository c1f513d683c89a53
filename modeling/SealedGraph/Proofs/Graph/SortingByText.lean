import Mathlib
import SealedGraph.Proofs.Graph.Sorting

/-!
# Sorting by the texts of digests

Relations and identifiers are sorted by their digests, which are compared byte
by byte.  Whoever has only the texts of the digests sorts them alike.  Of the
two digits of a byte the first one counts for more, and digits stand in the
order of their values, letters after numerals; what stands before all texts
makes no difference.

## Main results

* `Hex.digits_lt_iff`: digits are compared as the bytes that they stand for.
* `Word.keepsOrder_toHex`, `Word.keepsOrder_text`: so are the texts of words.
* `sortsByText_toHex_and_text`: graphs are sorted by the texts of digests.
-/

namespace SealedGraph

/-! ## Digits -/

namespace Hex

theorem digit_lt_digit_iff : ∀ m < 16, ∀ n < 16, digit m < digit n ↔ m < n := by
  decide

theorem digit_eq_digit_iff : ∀ m < 16, ∀ n < 16, digit m = digit n ↔ m = n := by
  decide

/-- Bytes are compared by their first halves, and if these are the same by their
second ones. -/
theorem byte_lt_iff (x y : UInt8) : x < y ↔
    x.toNat / 16 < y.toNat / 16 ∨ x.toNat / 16 = y.toNat / 16 ∧
      x.toNat % 16 < y.toNat % 16 := by
  rw [UInt8.lt_iff_toNat_lt]
  omega

theorem byte_eq_iff (x y : UInt8) :
    x = y ↔ x.toNat / 16 = y.toNat / 16 ∧ x.toNat % 16 = y.toNat % 16 := by
  rw [← UInt8.toNat_inj]
  omega

/-- The first bytes that differ have the first digits that differ. -/
theorem digits_lt_iff {xs : Bytes} :
    ∀ {ys : Bytes}, digits xs < digits ys ↔ xs < ys := by
  induction xs with
  | nil =>
      intro ys
      cases ys <;> simp [digits]
  | cons x xs ih =>
      intro ys
      cases ys with
      | nil => simp [digits]
      | cons y ys =>
          have hx := x.toNat_lt
          have hy := y.toNat_lt
          rw [digits, digits, List.cons_lt_cons_iff, List.cons_lt_cons_iff, ih,
            digit_lt_digit_iff _ (by omega) _ (by omega),
            digit_lt_digit_iff _ (by omega) _ (by omega),
            digit_eq_digit_iff _ (by omega) _ (by omega),
            digit_eq_digit_iff _ (by omega) _ (by omega), List.cons_lt_cons_iff,
            byte_lt_iff, byte_eq_iff, or_assoc, and_assoc, ← and_or_left]

end Hex

/-! ## Words -/

namespace Word

/-- Words are written in such a way that their texts are in the order of the
words. -/
def KeepsOrder (write : Word → String) : Prop :=
  ∀ a b : Word, write a < write b ↔ a.bytes < b.bytes

theorem keepsOrder_toHex : KeepsOrder toHex := by
  intro a b
  rw [String.lt_iff_toList_lt, toHex, toHex, Hex.encode, Hex.encode,
    String.toList_ofList, String.toList_ofList]
  exact Hex.digits_lt_iff

/-- The marker is the same for all words. -/
theorem keepsOrder_text : KeepsOrder text := by
  intro a b
  have hMarked (word : Word) :
      word.text.toList = '0' :: 'x' :: word.toHex.toList :=
    String.toList_append
  rw [String.lt_iff_toList_lt, hMarked, hMarked, List.cons_lt_cons_iff,
    List.cons_lt_cons_iff, ← String.lt_iff_toList_lt]
  simpa using keepsOrder_toHex a b

section KeepsOrder

variable {write : Word → String}

theorem KeepsOrder.le_iff (h : KeepsOrder write) (a b : Word) :
    write a ≤ write b ↔ a.bytes ≤ b.bytes := by
  rw [← String.not_lt, h b a, List.not_lt]

/-- Different words have different texts, since one of the texts is less than
the other. -/
theorem KeepsOrder.eq_iff (h : KeepsOrder write) (a b : Word) :
    write a = write b ↔ a.bytes = b.bytes := by
  constructor
  · intro hText
    exact List.le_antisymm ((h.le_iff a b).mp (le_of_eq hText))
      ((h.le_iff b a).mp (le_of_eq hText.symm))
  · intro hBytes
    rw [Word.ext hBytes]

theorem KeepsOrder.le_eq (h : KeepsOrder write) (a b : Word) :
    a.le b = textLe (write a) (write b) :=
  decide_eq_decide.mpr (h.le_iff a b).symm

theorem KeepsOrder.order_eq (h : KeepsOrder write) (a b : Word) :
    a.order b = compare (write a) (write b) := by
  rw [order, LinearOrder.compare_eq_compareOfLessAndEq]
  simp only [compareOfLessAndEq, h a b, h.eq_iff a b]

end KeepsOrder
end Word

/-! ## Graphs -/

section Sorting

variable {write : Word → String}

/-- Sorts things by the written digests of their texts. -/
def sortByText {α : Type} (write : Word → String) (json : α → Json)
    (items : List α) : List α :=
  items.mergeSort (keyLe fun item => write (json item).digest)

/-- An object with its relations and identifiers sorted by their written
digests. -/
def GraphObject.sortPartsByText (write : Word → String) (o : GraphObject) :
    GraphObject :=
  { o with
    relations := o.relations.map (sortByText write Relation.json)
    identifiers :=
      o.identifiers.map (sortByText write fun identifier => identifier) }

/-- Sorts a graph by the written digests of relations and identifiers. -/
def sortGraphByText (write : Word → String) (graph : List GraphObject) :
    List GraphObject :=
  sortById (graph.map (GraphObject.sortPartsByText write))

/-- The relations and the identifiers of an object are in ascending order of
their written digests. -/
structure GraphObject.AscendsBy (write : Word → String) (o : GraphObject) :
    Prop where
  relations : ∀ relations ∈ o.relations,
    relations.Pairwise fun r s => write r.json.digest ≤ write s.json.digest
  identifiers : ∀ identifiers ∈ o.identifiers,
    identifiers.Pairwise fun i j => write i.digest ≤ write j.digest

/-- Words are in the order of what is written for them, and so are the parts of
a sorted graph. -/
structure SortsByText (write : Word → String) : Prop where
  order_eq : ∀ a b : Word, a.order b = compare (write a) (write b)
  sortGraph_eq : ∀ graph, sortGraph graph = sortGraphByText write graph
  ascends : ∀ graph, ∀ o ∈ sortGraph graph, o.AscendsBy write

theorem sortByDigest_eq_sortByText (h : Word.KeepsOrder write) {α : Type}
    (json : α → Json) (items : List α) :
    sortByDigest json items = sortByText write json items := by
  rw [sortByDigest_eq_mergeSort, sortByText]
  congr 1
  funext a b
  exact h.le_eq _ _

theorem sortParts_eq_sortPartsByText (h : Word.KeepsOrder write) :
    GraphObject.sortParts = GraphObject.sortPartsByText write := by
  funext o
  rw [GraphObject.sortParts, GraphObject.sortPartsByText,
    funext (sortByDigest_eq_sortByText h Relation.json),
    funext (sortByDigest_eq_sortByText h fun identifier => identifier)]

theorem pairwise_sortByText {α : Type} (json : α → Json) (items : List α) :
    (sortByText write json items).Pairwise fun a b =>
      write (json a).digest ≤ write (json b).digest := by
  have hSorted : (sortByText write json items).Pairwise fun a b =>
      keyLe (fun item => write (json item).digest) a b :=
    List.pairwise_mergeSort keyLe_trans keyLe_total items
  exact hSorted.imp of_decide_eq_true

theorem ascendsBy_sortPartsByText (o : GraphObject) :
    (o.sortPartsByText write).AscendsBy write := by
  constructor
  · intro relations hRelations
    obtain ⟨given, _, rfl⟩ := Option.map_eq_some_iff.mp hRelations
    exact pairwise_sortByText Relation.json given
  · intro identifiers hIdentifiers
    obtain ⟨given, _, rfl⟩ := Option.map_eq_some_iff.mp hIdentifiers
    exact pairwise_sortByText (fun identifier => identifier) given

theorem sortsByText_of_keepsOrder (h : Word.KeepsOrder write) :
    SortsByText write := by
  have hGraph (graph : List GraphObject) :
      sortGraph graph = sortGraphByText write graph := by
    rw [sortGraph, sortGraphByText, sortParts_eq_sortPartsByText h]
  refine ⟨h.order_eq, hGraph, ?_⟩
  intro graph o ho
  rw [hGraph graph] at ho
  obtain ⟨given, _, rfl⟩ := List.mem_map.mp (perm_sortById.mem_iff.mp ho)
  exact ascendsBy_sortPartsByText given

end Sorting

/-- Words are compared as their digits are, with or without the marker.  So a
sorted graph is the one that is sorted by these texts of the digests, and its
relations and identifiers ascend by them. -/
theorem sortsByText_toHex_and_text :
    SortsByText Word.toHex ∧ SortsByText Word.text :=
  ⟨sortsByText_of_keepsOrder Word.keepsOrder_toHex,
    sortsByText_of_keepsOrder Word.keepsOrder_text⟩

/-- A letter stands after the numerals. -/
example : (Word.ofNat 0x9f).toHex < (Word.ofNat 0xa0).toHex := by decide

end SealedGraph
