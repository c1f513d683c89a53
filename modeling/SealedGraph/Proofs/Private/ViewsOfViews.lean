import Mathlib
import SealedGraph.Proofs.Exchange.OneOpening
import SealedGraph.Proofs.Private.Committing

/-!
# Views of views

Committing, stripping and hiding can be done again at any time, so that a
publisher may repeat a step that was interrupted: a view is its own view, and
of two views the one that shows less remains.  A graph that was committed to
stays as it is when it is committed to again, and so do its two views.

## Main results

* `hideGraph_hideGraph`, `stripGraph_hideGraph`, `hideGraph_stripGraph`: views
  of views.
* `views_of_views`: all of them together, each with its success.
-/

namespace SealedGraph.Committer

variable {c : Committer} {graph shown held : List GraphObject}

/-- The view of a holder is its own view of a holder. -/
theorem hideGraph_hideGraph (h : c.hideGraph graph = .ok held) :
    c.hideGraph held = .ok held := by
  have hSame : c.hideGraph held = c.hideGraph graph := by
    apply mapGraph_of_eq .hidden .hidden keeps_hidden.keepsSound
      PrivateEntry.hidden_ordered _ h
    intro slot e e' hChange
    cases hChange
    exact e.hidden_hidden
  exact hSame.trans h

/-- What a holder has left out does not show in public. -/
theorem stripGraph_hideGraph (h : c.hideGraph graph = .ok held) :
    c.stripGraph held = c.stripGraph graph := by
  apply stripGraph_of_view keeps_hidden.keepsSound _ h
  intro slot e e' hChange
  cases hChange
  exact e.stripped_hidden

/-- A public view leaves a holder nothing to hide. -/
theorem hideGraph_stripGraph (h : c.stripGraph graph = .ok shown) :
    c.hideGraph shown = .ok shown := by
  have hSame : c.hideGraph shown = c.stripGraph graph := by
    apply mapGraph_of_eq .hidden .stripped keeps_stripped.keepsSound
      PrivateEntry.hidden_ordered _ h
    intro slot e e' hChange
    cases hChange
    exact e.hidden_stripped
  exact hSame.trans h

/-- Where there is a public view there is one for a holder; both are their own
views, and the public view is that of the other one and has nothing to hide.  A
graph that was committed to has both views, and neither they nor the graph
change when they are committed to. -/
theorem views_of_views (c : Committer) (graph : List GraphObject) :
    (∀ shown, c.stripGraph graph = .ok shown →
      ∃ held, c.hideGraph graph = .ok held ∧
      c.stripGraph shown = .ok shown ∧ c.hideGraph held = .ok held ∧
      c.stripGraph held = .ok shown ∧ c.hideGraph shown = .ok shown) ∧
    ∀ committed, c.commitGraph graph = .ok committed → ∃ shown held,
      c.stripGraph committed = .ok shown ∧ c.hideGraph committed = .ok held ∧
      c.commitGraph committed = .ok committed ∧
      c.commitGraph shown = .ok shown ∧
      c.commitGraph held = .ok held := by
  constructor
  · intro shown hShown
    obtain ⟨held, hHeld⟩ := exists_hideGraph_of_stripGraph hShown
    exact ⟨held, hHeld, stripGraph_stripGraph hShown, hideGraph_hideGraph hHeld,
      (stripGraph_hideGraph hHeld).trans hShown, hideGraph_stripGraph hShown⟩
  · intro committed hCommit
    have hAgain := commitGraph_commitGraph hCommit
    have hReadable := exists_entries hAgain
    obtain ⟨shown, hShown⟩ : ∃ shown, c.stripGraph committed = .ok shown :=
      (mapGraph_ok_iff (fun _ _ => ⟨_, rfl⟩) committed).mpr hReadable
    obtain ⟨held, hHeld⟩ := exists_hideGraph_of_stripGraph hShown
    exact ⟨shown, held, hShown, hHeld, hAgain,
      commitGraph_stripGraph hAgain hShown, commitGraph_hideGraph hAgain hHeld⟩

/-! ## Entries of all kinds -/

/-- An object with four entries: one flagged, one flagged as public, one that is
committed to and has a member that is not known, and one with a null for its
data; and an object without entries. -/
def mixedGraph : List GraphObject :=
  let shown : Json := .object [("data", .bool true), ("isPrivate", .bool false)]
  let committed : Json :=
    .object [("a", .null), ("private_data_hash", Word.zero.json)]
  let empty : Json :=
    .object [("data", .null), ("isPrivate", .null),
      ("private_data_hash", Word.zero.json)]
  [(GraphObject.new "a").withProperty "private"
    (.array [(PrivateEntry.new (.bool true)).json, shown, committed, empty]),
    {}]

set_option maxRecDepth 100000 in
theorem views_of_views_mixed : ∃ shown held committed shown' held',
    wordCommitter.stripGraph mixedGraph = .ok shown ∧
      wordCommitter.hideGraph mixedGraph = .ok held ∧
      wordCommitter.stripGraph shown = .ok shown ∧
      wordCommitter.hideGraph held = .ok held ∧
      wordCommitter.stripGraph held = .ok shown ∧
      wordCommitter.hideGraph shown = .ok shown ∧
      wordCommitter.commitGraph mixedGraph = .ok committed ∧
      wordCommitter.stripGraph committed = .ok shown' ∧
      wordCommitter.hideGraph committed = .ok held' ∧
      wordCommitter.commitGraph committed = .ok committed ∧
      wordCommitter.commitGraph shown' = .ok shown' ∧
        wordCommitter.commitGraph held' = .ok held' := by
  have hStripped : (wordCommitter.stripGraph mixedGraph).toOption.isSome := by
    decide +kernel
  have hCommitted : (wordCommitter.commitGraph mixedGraph).toOption.isSome := by
    decide +kernel
  obtain ⟨shown, hShown⟩ := exists_ok hStripped
  obtain ⟨committed, hCommit⟩ := exists_ok hCommitted
  obtain ⟨hViews, hAgain⟩ := views_of_views wordCommitter mixedGraph
  obtain ⟨held, hHeld, hShownAgain, hHeldAgain, hPublic, hNothing⟩ :=
    hViews shown hShown
  obtain ⟨shown', held', hAll⟩ := hAgain committed hCommit
  exact ⟨shown, held, committed, shown', held', hShown, hHeld, hShownAgain,
    hHeldAgain, hPublic, hNothing, hCommit, hAll⟩

end SealedGraph.Committer
