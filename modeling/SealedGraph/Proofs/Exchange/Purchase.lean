import Mathlib
import SealedGraph.Proofs.Exchange.CanonicalPayload
import SealedGraph.Proofs.Private.Committing

/-!
# A purchase from end to end

A publisher commits to the private entries of a graph and gives away its public
view.  The holder of an entry's data seals them, and a buyer opens them and
puts them back into the public view.  The entry is then as the publisher had
it, flagged private; and nothing that the buyer has done shows in public, or
needs another commitment.

All of this is told by what happens to a single entry: it is committed to at
first, stripped in between, and committed again at the end.

## Main results

* `stripGraph_restoreGraph`: data that were put back do not show in public.
* `commitGraph_restoreGraph`: they are committed to already.
* `restoreGraph_of_purchase`: a purchase brings an entry back, and its data to
  the buyer if their numbers are read back.
* `opened_as_neighbour`: a number that is committed to, and another one that is
  opened.
-/

namespace SealedGraph

open Json

/-! ## Entries -/

namespace PrivateEntry

variable {e : PrivateEntry} {v : Json}

theorem ordered_ordered (e : PrivateEntry) : e.ordered.ordered = e.ordered := by
  have hExtra := Members.ofList_of_ascending (Members.ascending_ofList e.extra)
  unfold ordered
  rw [hExtra]

theorem data_of_payload? (h : e.payload? = some v) :
    e.data = some v ∧ v ≠ .null := by
  obtain ⟨hData, hNull⟩ := Option.filter_eq_some_iff.mp h
  refine ⟨hData, fun hSame => ?_⟩
  rw [hSame] at hNull
  cases hNull

end PrivateEntry

namespace Committer

variable {c : Committer}

section Restore

variable {objectId : String} {hash : Word} {data : Json}

theorem keepsSound_restoreAt (hData : data ≠ .null) :
    KeepsSound (restoreAt objectId hash data) := by
  intro slot e e' hSound hChange
  cases hChange
  split
  · exact ⟨fun hNull => hData (Option.some.inj hNull), hSound.apart⟩
  · exact hSound

theorem stripped_restoreAt {slot : Slot} {e e' : PrivateEntry}
    (h : restoreAt objectId hash data slot e = .ok e') :
    e'.stripped = e.stripped := by
  cases h
  split <;> rfl

theorem committed_of_restoreAt (hHash : c.hash (.new data) = .ok hash)
    {slot : Slot} {e e' : PrivateEntry} (hCommitted : c.Committed e)
    (h : restoreAt objectId hash data slot e = .ok e') : c.Committed e' := by
  cases h
  split
  · next hHere =>
    have hSame := (Bool.and_eq_true_iff.mp hHere).2
    exact Committed.withData hHash (of_decide_eq_true hSame)
  · exact hCommitted

end Restore

/-! ## The buyer's graph -/

section Graph

variable {graph restored : List GraphObject} {objectId : String} {data : Json}

theorem data_ne_null_of_restoreGraph
    (hRestore : c.restoreGraph graph objectId data = .ok restored) :
    data ≠ .null := by
  obtain ⟨_, _, hHash, _⟩ := restoreGraph_eq_ok.mp hRestore
  exact (hash_new_eq_ok.mp hHash).1

/-- Data that were put back do not show in public. -/
theorem stripGraph_restoreGraph
    (hRestore : c.restoreGraph graph objectId data = .ok restored) :
    c.stripGraph restored = c.stripGraph graph := by
  have hData := data_ne_null_of_restoreGraph hRestore
  obtain ⟨hash, _, _, _, hChange, _⟩ := restoreGraph_eq_ok.mp hRestore
  exact stripGraph_of_view (keepsSound_restoreAt hData)
    (fun _ _ _ hEntry => stripped_restoreAt hEntry) hChange

/-- Data that were put back into a committed graph are committed to. -/
theorem commitGraph_restoreGraph (hCommit : c.commitGraph graph = .ok graph)
    (hRestore : c.restoreGraph graph objectId data = .ok restored) :
    c.commitGraph restored = .ok restored := by
  have hData := data_ne_null_of_restoreGraph hRestore
  obtain ⟨hash, _, hHash, _, hChange, _⟩ := restoreGraph_eq_ok.mp hRestore
  apply commitGraph_of_committed (keepsSound_restoreAt hData) _ hCommit hChange
  intro slot e e' hCommitted hEntry
  exact committed_of_restoreAt hHash hCommitted hEntry

end Graph

/-! ## One entry on its way -/

section Way

variable {graph committed : List GraphObject}
  {entries : List (Slot × PrivateEntry)} {i : Nat} {slot : Slot}
  {e : PrivateEntry}

/-- What a view makes of an entry is found in its place. -/
theorem exists_of_getElem?
    {R : Slot × PrivateEntry → Slot × PrivateEntry → Prop}
    {given found : List (Slot × PrivateEntry)} (h : List.Forall₂ R given found)
    {x : Slot × PrivateEntry} (hx : given[i]? = some x) :
    ∃ y, found[i]? = some y ∧ R x y := by
  induction h generalizing i with
  | nil => cases hx
  | cons hFirst _ ih =>
      cases i with
      | zero =>
          cases hx
          exact ⟨_, rfl, hFirst⟩
      | succ i => exact ih hx

/-- An entry of a committed graph is committed, and has its other members in
order. -/
theorem committed_of_entries (hCommit : c.commitGraph graph = .ok committed)
    (hEntries : c.entries committed = .ok entries)
    (hEntry : entries[i]? = some (slot, e)) :
    c.Committed e ∧ e.ordered = e := by
  obtain ⟨found, hFound, hAll⟩ :=
    entries_of_view (keeps_commitAt c).keepsSound
      (commitGraph_commitGraph hCommit) hEntries
  cases hEntries.symm.trans hFound
  obtain ⟨_, hSame, _, e', hChange, hMade⟩ := exists_of_getElem? hAll hEntry
  cases hEntry.symm.trans hSame
  rw [show e = e'.ordered from hMade]
  exact ⟨(committed_of_commitAt hChange).ordered, e'.ordered_ordered⟩

/-- An entry of a committed graph has its hash in the public view, in the same
place. -/
theorem exists_entries_stripped {stripped : List GraphObject}
    (hOrdered : e.ordered = e) (hEntries : c.entries committed = .ok entries)
    (hEntry : entries[i]? = some (slot, e))
    (hStrip : c.stripGraph committed = .ok stripped) :
    ∃ shown, c.entries stripped = .ok shown ∧
      shown[i]? = some (slot, e.stripped) := by
  obtain ⟨shown, hShown, hAll⟩ :=
    entries_of_view keeps_stripped.keepsSound hStrip hEntries
  obtain ⟨⟨_, found⟩, hFound, hSlot, _, hChange, hMade⟩ :=
    exists_of_getElem? hAll hEntry
  cases hChange
  cases hSlot
  refine ⟨shown, hShown, hFound.trans (congrArg (fun x => some (slot, x)) ?_)⟩
  calc found = e.ordered.stripped := hMade
    _ = e.stripped := by rw [hOrdered]

/-- The data of an entry are put back into its place in the public view. -/
theorem exists_restoreGraph {stripped : List GraphObject} {v : Json}
    {hash : Word} (hOrdered : e.ordered = e)
    (hEntries : c.entries committed = .ok entries)
    (hEntry : entries[i]? = some (slot, e)) (hPayload : e.payload? = some v)
    (hHash : e.hash = some hash) (hNew : c.hash (.new v) = .ok hash)
    (hStrip : c.stripGraph committed = .ok stripped) :
    ∃ restored others, c.restoreGraph stripped slot.objectId v = .ok restored ∧
      c.entries restored = .ok others ∧
      others[i]? = some (slot, { e with flag := some true }) := by
  obtain ⟨hData, hNull⟩ := PrivateEntry.data_of_payload? hPayload
  obtain ⟨shown, hShown, hPlace⟩ :=
    exists_entries_stripped hOrdered hEntries hEntry hStrip
  have hHere : isCommittedAs slot.objectId hash slot e.stripped = true := by
    rw [isCommittedAs, show e.stripped.hash = some hash from hHash]
    simp
  obtain ⟨restored, hChange⟩ : ∃ restored,
      stripped.mapM (c.mapObject (restoreAt slot.objectId hash v)) =
        .ok restored :=
    (mapGraph_ok_iff (fun _ _ => ⟨_, rfl⟩) stripped).mpr ⟨shown, hShown⟩
  have hRestore : c.restoreGraph stripped slot.objectId v = .ok restored :=
    restoreGraph_eq_ok.mpr ⟨hash, shown, hNew, hShown, hChange, _,
      List.mem_of_getElem? hPlace, hHere⟩
  obtain ⟨others, hOthers, hAll⟩ :=
    entries_of_view (keepsSound_restoreAt hNull) hChange hShown
  obtain ⟨⟨_, found⟩, hFound, hSlot, _, hEntry, hMade⟩ :=
    exists_of_getElem? hAll hPlace
  cases hSlot
  refine ⟨restored, others, hRestore, hOthers,
    hFound.trans (congrArg (fun x => some (slot, x)) ?_)⟩
  rw [restoreAt, if_pos hHere] at hEntry
  cases hEntry
  calc found = { e.ordered with flag := some true, data := some v } := hMade
    _ = { e with flag := some true } := by rw [hOrdered, ← hData]

/-- An entry of a committed graph is sealed under any key, with its hash as the
private root; the key opens the offer to the payload. -/
theorem exists_sealed_of_entries (hCommit : c.commitGraph graph = .ok committed)
    (hEntries : c.entries committed = .ok entries)
    (hEntry : entries[i]? = some (slot, e)) {v : Json}
    (hPayload : e.payload? = some v) (hBytes : v.canonicalBytes.length < 2 ^ 64)
    (hNodes : ∀ tree, c.tree e = .ok tree → tree.nodeCount < 2 ^ 64)
    (key : ExchangeKey) :
    ∃ commitment, c.encode e key = .ok commitment ∧
      e.hash = some commitment.privateRoot ∧
      c.hash (.new v) = .ok commitment.privateRoot ∧
      c.decodeOffer commitment.offer key = received v := by
  obtain ⟨⟨hash, hHash, hOwn⟩, _⟩ :=
    committed_of_entries hCommit hEntries hEntry
  obtain ⟨_, hNull⟩ := PrivateEntry.data_of_payload? hPayload
  have hRight : ∀ published, e.hash = some published →
      c.hash e = .ok published := by
    intro published hPublished
    cases hHash.symm.trans hPublished
    exact hOwn v hPayload
  obtain ⟨commitment, hEncode, hRoot, _, hDecode⟩ :=
    exists_sealed hPayload hRight hBytes hNodes key
  have hNew : c.hash (.new v) = .ok commitment.privateRoot :=
    (hash_congr ((payload?_new hNull).trans hPayload.symm)).trans hRoot
  cases (hOwn v hPayload).symm.trans hRoot
  exact ⟨commitment, hEncode, hHash, hNew, hDecode⟩

/-- A committed graph has a public view, and each of its entries whose data are
no more nested than a text may be can be sold.  The entry is sealed under any
key, with its hash as the private root; the key opens the offer to the data if,
and only if, their numbers are read back.  The data are put back into the public
view of the graph.  There the entry stands in its place, now flagged; the public
view is what it was, and there is nothing left to commit to.  Lengths of what
stands in memory are 64-bit words. -/
theorem restoreGraph_of_purchase
    (hCommit : c.commitGraph graph = .ok committed) :
    ∃ entries stripped, c.entries committed = .ok entries ∧
      c.stripGraph committed = .ok stripped ∧
      ∀ (i : Nat) (slot : Slot) (e : PrivateEntry) (v : Json),
        entries[i]? = some (slot, e) → e.payload? = some v → Tidy maxDepth v →
        v.canonicalBytes.length < 2 ^ 64 →
        (∀ tree, c.tree e = .ok tree → tree.nodeCount < 2 ^ 64) →
        ∀ key : ExchangeKey, ∃ commitment restored others,
          c.encode e key = .ok commitment ∧
          e.hash = some commitment.privateRoot ∧
          (c.decodeOffer commitment.offer key = .ok v ↔ v.ReadsBack) ∧
          c.restoreGraph stripped slot.objectId v = .ok restored ∧
          c.entries restored = .ok others ∧
          others[i]? = some (slot, { e with flag := some true }) ∧
          c.stripGraph restored = .ok stripped ∧
          c.commitGraph restored = .ok restored := by
  obtain ⟨entries, hEntries⟩ := exists_entries (commitGraph_commitGraph hCommit)
  obtain ⟨stripped, hStrip⟩ :
    ∃ stripped, c.stripGraph committed = .ok stripped :=
    (mapGraph_ok_iff (fun _ _ => ⟨_, rfl⟩) committed).mpr ⟨entries, hEntries⟩
  refine ⟨entries, stripped, hEntries, hStrip, ?_⟩
  intro i slot e v hEntry hPayload hTidy hBytes hNodes key
  obtain ⟨_, hOrdered⟩ := committed_of_entries hCommit hEntries hEntry
  obtain ⟨commitment, hEncode, hPublished, hNew, hDecode⟩ :=
    exists_sealed_of_entries hCommit hEntries hEntry hPayload hBytes hNodes key
  obtain ⟨restored, others, hRestore, hOthers, hPlace⟩ :=
    exists_restoreGraph hOrdered hEntries hEntry hPayload hPublished hNew hStrip
  have hOpened : c.decodeOffer commitment.offer key = .ok v ↔ v.ReadsBack := by
    rw [hDecode, received_eq_ok_iff hTidy]
  have hShown := commitGraph_stripGraph (commitGraph_commitGraph hCommit) hStrip
  exact ⟨commitment, restored, others, hEncode, hPublished, hOpened,
    hRestore, hOthers, hPlace,
    (stripGraph_restoreGraph hRestore).trans (stripGraph_stripGraph hStrip),
    commitGraph_restoreGraph hShown hRestore⟩

end Way

/-! ## The sale of a truth value, and of a number -/

/-- A graph of two objects with one id, each of which holds an entry with the
same data. -/
def twinGraph (v : Json) : List GraphObject :=
  let o := (GraphObject.new "a").withProperty "private"
    (.array [(PrivateEntry.new v).json])
  [o, o]

/-- What the second one of these entries is, once the graph is committed to. -/
theorem exists_secondEntry {v : Json}
    (hCommitted : (wordCommitter.commitGraph (twinGraph v)).toOption.isSome)
    (hSecond : ∀ committed ∈ (wordCommitter.commitGraph (twinGraph v)).toOption,
      ∀ entries ∈ (wordCommitter.entries committed).toOption,
      entries[1]?.map
        (fun found => (found.1, found.2.payload?.map canonicalText)) =
          some (⟨"a", "private", 0⟩, some v.canonicalText) ∧
      ∀ found ∈ entries[1]?, ∀ tree ∈ (wordCommitter.tree found.2).toOption,
        tree.nodeCount < 2 ^ 64) :
    ∃ committed entries e data,
      wordCommitter.commitGraph (twinGraph v) = .ok committed ∧
      wordCommitter.entries committed = .ok entries ∧
      entries[1]? = some (⟨"a", "private", 0⟩, e) ∧
      e.payload? = some data ∧ data.normalize = v.normalize ∧
      ∀ tree, wordCommitter.tree e = .ok tree → tree.nodeCount < 2 ^ 64 := by
  obtain ⟨committed, hc⟩ := Option.isSome_iff_exists.mp hCommitted
  have hCommit := toOption_eq_some.mp hc
  obtain ⟨entries, hEntries⟩ := exists_entries (commitGraph_commitGraph hCommit)
  obtain ⟨hFound, hSmall⟩ :=
    hSecond committed hc entries (toOption_eq_some.mpr hEntries)
  obtain ⟨⟨slot, e⟩, hEntry, hSame⟩ := Option.map_eq_some_iff.mp hFound
  obtain ⟨hSlot, hData⟩ := Prod.mk.inj hSame
  cases hSlot
  obtain ⟨data, hPayload, hText⟩ := Option.map_eq_some_iff.mp hData
  exact ⟨committed, entries, e, data, hCommit, hEntries, hEntry, hPayload,
    eq_of_canonicalText_eq hText,
    fun tree hTree => hSmall _ hEntry tree (toOption_eq_some.mpr hTree)⟩

set_option maxRecDepth 100000 in
theorem restoreGraph_of_purchase_truth :
    ∃ committed entries stripped e commitment restored others,
      wordCommitter.commitGraph (twinGraph (.bool true)) = .ok committed ∧
      wordCommitter.entries committed = .ok entries ∧
      wordCommitter.stripGraph committed = .ok stripped ∧
      entries[1]? = some (⟨"a", "private", 0⟩, e) ∧
      e.payload? = some (.bool true) ∧
      wordCommitter.encode e ⟨Word.zero⟩ = .ok commitment ∧
      e.hash = some commitment.privateRoot ∧
      wordCommitter.decodeOffer commitment.offer ⟨Word.zero⟩ =
        .ok (.bool true) ∧
      wordCommitter.restoreGraph stripped "a" (.bool true) = .ok restored ∧
      wordCommitter.entries restored = .ok others ∧
      others[1]? = some (⟨"a", "private", 0⟩, { e with flag := some true }) ∧
      wordCommitter.stripGraph restored = .ok stripped ∧
      wordCommitter.commitGraph restored = .ok restored := by
  obtain ⟨committed, entries, e, data, hCommit, hEntries, hEntry, hPayload,
    hData, hNodes⟩ :=
      exists_secondEntry (v := .bool true) (by decide +kernel)
        (by decide +kernel)
  obtain ⟨_, stripped, hSame, hStrip, hSold⟩ := restoreGraph_of_purchase hCommit
  cases hEntries.symm.trans hSame
  have hTrue : data = .bool true := by
    cases data <;> cases hData
    rfl
  subst hTrue
  obtain ⟨commitment, restored, others, hEncode, hHash, hOpened, hRestored⟩ :=
    hSold 1 _ e _ hEntry hPayload (.bool maxDepth true) (by decide) hNodes
      ⟨Word.zero⟩
  exact ⟨committed, entries, stripped, e, commitment, restored, others,
    hCommit, hEntries, hStrip, hEntry, hPayload, hEncode, hHash,
    hOpened.mpr (readsBack_bool true), hRestored⟩

set_option maxRecDepth 100000 in
/-- A committed number is sealed, and what the key opens is the next one. -/
theorem opened_as_neighbour :
    ∃ committed entries e commitment,
      wordCommitter.commitGraph (twinGraph (.number (drifting false))) =
        .ok committed ∧
      wordCommitter.entries committed = .ok entries ∧
      entries[1]? = some (⟨"a", "private", 0⟩, e) ∧
      e.payload? = some (.number (drifting false)) ∧
      wordCommitter.encode e ⟨Word.zero⟩ = .ok commitment ∧
      wordCommitter.decodeOffer commitment.offer ⟨Word.zero⟩ =
        .ok (.number (drifting true)) ∧
      drifting true ≠ drifting false := by
  obtain ⟨committed, entries, e, data, hCommit, hEntries, hEntry, hPayload,
    hData, hNodes⟩ :=
      exists_secondEntry (v := .number (drifting false)) (by decide +kernel)
        (by decide +kernel)
  cases eq_number_of_normalize hData
  obtain ⟨commitment, hEncode, _, _, hDecode⟩ :=
    exists_sealed_of_entries hCommit hEntries hEntry hPayload
      (by decide +kernel) hNodes ⟨Word.zero⟩
  have hNext :
      received (.number (drifting false)) = .ok (.number (drifting true)) := by
    rw [received_of_tidy (.number maxDepth _), reread?, reread?_drifting]
    rfl
  exact ⟨committed, entries, e, commitment, hCommit, hEntries, hEntry,
    hPayload, hEncode, hDecode.trans hNext, by decide⟩

end Committer
end SealedGraph
