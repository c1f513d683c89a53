import Mathlib
import SealedGraph.Proofs.Exchange.Purchase
import SealedGraph.Proofs.Private.ReadableGraphs

/-!
# What restoring touches

Data are put back into whatever entries of an object are committed to them, of
which there may be many: in several properties, and in several objects of one
id.  All other entries are written as they were read, one that cannot be read
stops everything, and nothing else of the graph is touched.

## Main results

* `awaits_iff`: whether an entry of a readable graph is committed to data.
* `rewritten_of_restoreGraph`: the entries that data were put into, and all
  others.
* `restoreGraph_iff`: when data can be put back, and what this does.
-/

namespace SealedGraph.Committer

/-- Some entry of an object of an id is committed to data with a hash. -/
def Awaits (c : Committer) (graph : List GraphObject) (objectId : String)
    (hash : Word) : Prop :=
  ∃ o ∈ graph, o.id = objectId ∧ ∃ properties, o.properties = some properties ∧
    ∃ property ∈ properties, c.privacy.isPrivate property.1 = true ∧
      ∃ vs, property.2 = .array vs ∧
        ∃ v ∈ vs, ∃ e, PrivateEntry.ofJson? v = some e ∧ e.hash = some hash

/-- An entry is written again: with flag and data if it is committed to data
with a hash and stands in the object of an id, else as it was.  Hash and other
members stay; the latter are in order. -/
def EntryRestored (objectId : String) (hash : Word) (data : Json) (id : String)
    (v w : Json) : Prop :=
  ∃ e e', PrivateEntry.ofJson? v = some e ∧ PrivateEntry.ofJson? w = some e' ∧
    w = e'.json ∧ e'.hash = e.hash ∧ e'.extra = Members.ofList e.extra ∧
    (id = objectId → e.hash = some hash → e'.flag = some true ∧
      e'.data = some data) ∧
    (¬ (id = objectId ∧ e.hash = some hash) → w = e.json)

variable {c : Committer} {graph restored : List GraphObject} {objectId : String}
  {hash : Word} {data : Json}

theorem isCommittedAs_iff {slot : Slot} {e : PrivateEntry} :
    isCommittedAs objectId hash slot e = true ↔ slot.objectId = objectId ∧
      e.hash = some hash := by
  rw [isCommittedAs, Bool.and_eq_true, decide_eq_true_iff, decide_eq_true_iff]

/-- Data can be hashed unless they are null. -/
theorem exists_hash_new (c : Committer) (hData : data ≠ .null) :
    ∃ hash, c.hash (.new data) = .ok hash := by
  obtain ⟨leaves, hSplit, _⟩ :=
    Blocks.splitLeaves_eq_ok data.canonicalBytes c.valid
  exact ⟨_, hash_new_eq_ok.mpr ⟨hData, leaves, hSplit, rfl⟩⟩

/-- Among the entries of a graph is one that is committed to data. -/
theorem awaits_iff {entries : List (Slot × PrivateEntry)}
    (hEntries : c.entries graph = .ok entries) :
    c.Awaits graph objectId hash ↔
      ∃ found ∈ entries,
        isCommittedAs objectId hash found.1 found.2 = true := by
  constructor
  · rintro ⟨o, ho, hId, properties, hSome, property, hProperty, hPrivate, vs,
      hArray, v, hv, e, hRead, hHash⟩
    obtain ⟨i, hi⟩ := List.mem_iff_getElem?.mp hv
    refine ⟨(⟨o.id, property.1, i⟩, e), ?_, isCommittedAs_iff.mpr ⟨hId, hHash⟩⟩
    exact (mem_entries hEntries).mpr
      ⟨o, ho, properties, hSome, property, hProperty, rfl, rfl, hPrivate, vs, v,
        hArray, hi, hRead⟩
  · rintro ⟨⟨slot, e⟩, hFound, hHere⟩
    obtain ⟨hId, hHash⟩ := isCommittedAs_iff.mp hHere
    obtain ⟨o, ho, properties, hSome, property, hProperty, hObject, _, hPrivate,
      vs, v, hArray, hv, hRead⟩ := (mem_entries hEntries).mp hFound
    exact ⟨o, ho, hObject.symm.trans hId, properties, hSome, property,
      hProperty, hPrivate, vs, hArray, v, List.mem_of_getElem? hv, e,
      hRead, hHash⟩

theorem entryRestored_of_changeJson (hData : data ≠ .null) (slot : Slot)
    (v w : Json)
    (h : changeJson (restoreAt objectId hash data) slot v = .ok w) :
    EntryRestored objectId hash data slot.objectId v w := by
  obtain ⟨e, e', hRead, hChange, rfl⟩ := changeJson_eq_ok.mp h
  have hSound :=
    keepsSound_restoreAt hData (PrivateEntry.sound_of_ofJson? hRead) hChange
  refine ⟨e, e'.ordered, hRead, PrivateEntry.ofJson?_json hSound,
    e'.json_ordered.symm, ?_⟩
  by_cases hHere : slot.objectId = objectId ∧ e.hash = some hash
  · rw [restoreAt, if_pos (isCommittedAs_iff.mpr hHere)] at hChange
    cases hChange
    exact ⟨rfl, rfl, fun _ _ => ⟨rfl, rfl⟩, fun hElse => absurd hHere hElse⟩
  · rw [restoreAt, if_neg (fun h => hHere (isCommittedAs_iff.mp h))] at hChange
    cases hChange
    exact ⟨rfl, rfl, fun hId hHash => absurd ⟨hId, hHash⟩ hHere, fun _ => rfl⟩

/-- The entries that data were put into, and all others. -/
theorem rewritten_of_restoreGraph (hHash : c.hash (.new data) = .ok hash)
    (hRestore : c.restoreGraph graph objectId data = .ok restored) :
    List.Forall₂
      (fun o => c.ObjectRewritten (EntryRestored objectId hash data o.id) o)
      graph restored := by
  have hData := data_ne_null_of_restoreGraph hRestore
  obtain ⟨_, _, hSame, _, hChange, _⟩ := restoreGraph_eq_ok.mp hRestore
  cases hHash.symm.trans hSame
  exact rewritten_of_mapGraph (entryRestored_of_changeJson hData) hChange

/-- Data that are not null have a hash.  They are put back into a graph of
readable entries, one of which in an object of the id has this hash, and into no
other one.  All such entries are then flagged and have the data; no other entry,
and nothing else of the graph, has changed.  The graph has the public view that
it had. -/
theorem restoreGraph_iff (c : Committer) (graph : List GraphObject)
    (objectId : String) (data : Json) :
    (data ≠ .null → ∃ hash, c.hash (.new data) = .ok hash) ∧
    ((∃ restored, c.restoreGraph graph objectId data = .ok restored) ↔
      data ≠ .null ∧ c.Readable graph ∧
        ∃ hash, c.hash (.new data) = .ok hash ∧ c.Awaits graph objectId hash) ∧
    ∀ restored hash, c.restoreGraph graph objectId data = .ok restored →
      c.hash (.new data) = .ok hash →
      List.Forall₂
        (fun o => c.ObjectRewritten (EntryRestored objectId hash data o.id) o)
        graph restored ∧
      ∃ shown, c.stripGraph graph = .ok shown ∧
        c.stripGraph restored = .ok shown := by
  refine ⟨exists_hash_new c, ?_, ?_⟩
  · rw [restoreGraph_ok_iff]
    constructor
    · rintro ⟨hash, entries, hHash, hEntries, hFound⟩
      exact ⟨(hash_new_eq_ok.mp hHash).1, readable_iff.mpr ⟨entries, hEntries⟩,
        hash, hHash, (awaits_iff hEntries).mpr hFound⟩
    · rintro ⟨_, hReadable, hash, hHash, hAwaits⟩
      obtain ⟨entries, hEntries⟩ := readable_iff.mp hReadable
      exact ⟨hash, entries, hHash, hEntries, (awaits_iff hEntries).mp hAwaits⟩
  · intro restored hash hRestore hHash
    obtain ⟨_, entries, _, hEntries, _⟩ := restoreGraph_eq_ok.mp hRestore
    have hReadable : c.Readable graph := readable_iff.mpr ⟨entries, hEntries⟩
    obtain ⟨shown, hShown⟩ : ∃ shown, c.stripGraph graph = .ok shown :=
      (mapGraph_ok_iff_readable (fun _ _ => ⟨_, rfl⟩) graph).mpr hReadable
    exact ⟨rewritten_of_restoreGraph hHash hRestore, shown, hShown,
      (stripGraph_restoreGraph hRestore).trans hShown⟩

/-- Two objects of one id and another one, which hold entries with a hash; one
of these has a member that is not known and stands between an entry with another
hash and one with a flag only. -/
def awaitingGraph (hash : Word) : List GraphObject :=
  let committed : Json :=
    .object [("a", .null), ("private_data_hash", hash.json)]
  let other : Json := .object [("private_data_hash", Word.zero.json)]
  let flagged : Json := .object [("isPrivate", .bool false)]
  [(GraphObject.new "a").withProperty "private"
    (.array [other, committed, flagged]),
    (GraphObject.new "b").withProperty "private" (.array [committed]),
    ((GraphObject.new "a").withProperty "name" (.bool true)).withProperty
      "private" (.array [committed, committed])]

set_option maxRecDepth 100000 in
/-- Data are put back into three of the entries, and not into an object that is
not there, nor if something else than entries comes last. -/
theorem restoreGraph_iff_awaiting : ∃ hash restored shown,
    wordCommitter.hash (.new (.bool true)) = .ok hash ∧
    wordCommitter.restoreGraph (awaitingGraph hash) "a" (.bool true) =
      .ok restored ∧
    List.Forall₂
      (fun o =>
        wordCommitter.ObjectRewritten (EntryRestored "a" hash (.bool true) o.id)
          o)
      (awaitingGraph hash) restored ∧
    (wordCommitter.entries restored).toOption.map (·.map (·.2.flag)) =
      some [none, some true, some false, none, some true, some true] ∧
    wordCommitter.stripGraph (awaitingGraph hash) = .ok shown ∧
    wordCommitter.stripGraph restored = .ok shown ∧
    ¬ (∃ others, wordCommitter.restoreGraph (awaitingGraph hash) "c"
      (.bool true) = .ok others) ∧
    ¬ ∃ others, wordCommitter.restoreGraph
      (awaitingGraph hash ++
        [(GraphObject.new "d").withProperty "private" (.bool true)]) "a"
      (.bool true) = .ok others := by
  have hListed : ∀ hash ∈ (wordCommitter.hash (.new (.bool true))).toOption,
      (wordCommitter.entries (awaitingGraph hash)).toOption.isSome := by
    decide +kernel
  have hFound : ∀ hash ∈ (wordCommitter.hash (.new (.bool true))).toOption,
      ∀ entries ∈ (wordCommitter.entries (awaitingGraph hash)).toOption,
      ∃ found ∈ entries, isCommittedAs "a" hash found.1 found.2 = true := by
    decide +kernel
  have hFlags : ∀ hash ∈ (wordCommitter.hash (.new (.bool true))).toOption,
      ∀ restored ∈
        (wordCommitter.restoreGraph (awaitingGraph hash) "a"
          (.bool true)).toOption,
      (wordCommitter.entries restored).toOption.map (·.map (·.2.flag)) =
        some [none, some true, some false, none, some true, some true] := by
    decide +kernel
  obtain ⟨hash, hHash⟩ :=
    (restoreGraph_iff wordCommitter [] "a" (.bool true)).1 nofun
  have hOption := toOption_eq_some.mpr hHash
  obtain ⟨entries, hEntries⟩ := exists_ok (hListed hash hOption)
  have hAwaits : wordCommitter.Awaits (awaitingGraph hash) "a" hash :=
    (awaits_iff hEntries).mpr
      (hFound hash hOption entries (toOption_eq_some.mpr hEntries))
  obtain ⟨_, hIff, hRewritten⟩ :=
    restoreGraph_iff wordCommitter (awaitingGraph hash) "a" (.bool true)
  obtain ⟨restored, hRestore⟩ :=
    hIff.mpr ⟨nofun, readable_iff.mpr ⟨entries, hEntries⟩, hash, hHash, hAwaits⟩
  obtain ⟨hObjects, shown, hShown, hSame⟩ :=
    hRewritten restored hash hRestore hHash
  refine ⟨hash, restored, shown, hHash, hRestore, hObjects,
    hFlags hash hOption restored (toOption_eq_some.mpr hRestore), hShown,
    hSame, ?_, ?_⟩
  · intro hOthers
    obtain ⟨_, _, _, _, o, ho, hId, _⟩ :=
      (restoreGraph_iff _ _ "c" _).2.1.mp hOthers
    have hIds : o.id ∈ ["a", "b", "a"] := List.mem_map_of_mem ho
    rw [hId] at hIds
    exact absurd hIds (by decide)
  · intro hOthers
    obtain ⟨_, hReadable, _⟩ := (restoreGraph_iff _ _ "a" _).2.1.mp hOthers
    obtain ⟨_, hArray, _⟩ :=
      hReadable _ (List.mem_append_right _ List.mem_cons_self) _ rfl
        ("private", .bool true) List.mem_cons_self rfl
    cases hArray

end SealedGraph.Committer
