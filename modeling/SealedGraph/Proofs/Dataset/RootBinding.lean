import Mathlib
import SealedGraph.Dataset.Distribution
import SealedGraph.Proofs.Json.Unambiguous
import SealedGraph.Proofs.Merkle.Binding

/-!
# What the root of a dataset binds

A distribution tree hashes the summary, the objects and its own nodes alike,
and its root does not say how many leaves there are.  The summary settles both.
Its text is longer than the two words of a node, so that it is never taken for
one, and it lists the objects, so that a tree cannot have more or fewer of
them.  What the root binds are texts, and a canonical text is that of one
value.

## Main results

* `lt_length_summary`: the text of a summary is longer than a message of a node.
* `eq_of_summary_eq`: summaries with one text have one dataset and equally many
  objects.
* `items_eq_or_collision`: distributions with one root have the same texts, or
  collide.
* `rootHash_binds`: documents with one root have one public dataset, or collide.
-/

namespace SealedGraph

open Merkle

/-! ## Lengths of texts -/

namespace Json

theorem length_render_pos (v : Json) : 0 < (render v).length := by
  obtain ⟨c, rest, hRender, _⟩ := exists_cons_of_spells (spells_render v)
  rw [hRender, List.length_cons]
  exact Nat.succ_pos _

theorem two_le_length_renderString (text : String) :
    2 ≤ (renderString text).length := by
  rw [renderString, List.length_cons, List.length_append, List.length_singleton]
  omega

theorem two_le_length_render_array (items : List Json) :
    2 ≤ (render (.array items)).length := by
  cases items with
  | nil => exact Nat.le_refl 2
  | cons item rest =>
      have hItem := length_render_pos item
      rw [render, List.length_cons, List.length_append]
      omega

theorem length_normalizeItems (items : List Json) :
    (normalizeItems items).length = items.length := by
  induction items with
  | nil => rfl
  | cons item rest ih =>
      rw [normalizeItems, List.length_cons, List.length_cons, ih]

/-- Every character has a byte at least. -/
theorem length_le_length_ofText (cs : List Char) :
    cs.length ≤ (Bytes.ofText (String.ofList cs)).length := by
  rw [Bytes.ofText_ofList]
  induction cs with
  | nil => exact Nat.le_refl 0
  | cons c cs ih =>
      have hByte : 0 < (String.utf8EncodeChar c).length := by
        rw [String.length_utf8EncodeChar]
        exact c.utf8Size_pos
      rw [List.flatMap_cons, List.length_append, List.length_cons]
      omega

end Json

/-! ## Summaries -/

section Summary

variable (graph : List GraphObject) (datasetId : String) (creator : Creator)

/-- The members of a summary in their order. -/
theorem normalize_summary :
    (summary graph datasetId creator).normalize =
      .object [("datasetCreator", creator.json.normalize),
        ("datasetId", .string datasetId),
        ("numRelations", Json.ofCount (relationTotal graph)),
          ("objects",
            .array (Json.normalizeItems (graph.map GraphObject.summary)))] := by
  have hNames :
      ["datasetCreator", "datasetId", "numRelations", "objects"].Pairwise
        (· < ·) := by
    decide
  have hSummary : summary graph datasetId creator =
      .object [("datasetCreator", creator.json),
        ("datasetId", .string datasetId),
        ("numRelations", Json.ofCount (relationTotal graph)),
        ("objects", .array (graph.map GraphObject.summary))] := by
    refine congrArg Json.object
      (Members.ofList_of_perm ?_ (Members.ascending_iff_names.mpr hNames))
    -- The id is written before the creator, and the objects before the number
    -- of relations.
    exact (List.Perm.swap _ _ _).trans (((List.Perm.swap _ _ _).cons _).cons _)
  rw [hSummary]
  exact congrArg Json.object
    (Members.ofList_of_ascending (Members.ascending_iff_names.mpr hNames))

/-- Two words have 64 bytes; the names of the members of a summary with the
least that can stand beside them make more. -/
theorem lt_length_summary :
    64 < (summary graph datasetId creator).canonicalBytes.length := by
  have hCreator := Json.length_render_pos creator.json.normalize
  have hId := Json.two_le_length_renderString datasetId
  have hTotal := Json.length_render_pos (Json.ofCount (relationTotal graph))
  have hObjects := Json.two_le_length_render_array
    (Json.normalizeItems (graph.map GraphObject.summary))
  have h₁ : (Json.renderString "datasetCreator").length = 16 := by decide
  have h₂ : (Json.renderString "datasetId").length = 11 := by decide
  have h₃ : (Json.renderString "numRelations").length = 14 := by decide
  have h₄ : (Json.renderString "objects").length = 9 := by decide
  calc 64 <
        (Json.render (summary graph datasetId creator).normalize).length := by
        rw [normalize_summary]
        simp only [Json.render, Json.renderMembers, List.length_cons,
          List.length_append, List.length_nil, h₁, h₂, h₃, h₄]
        omega
    _ ≤ (summary graph datasetId creator).canonicalBytes.length :=
        Json.length_le_length_ofText _

end Summary

/-- A text says which dataset it is a summary of, by whom, and of how many
objects. -/
theorem eq_of_summary_eq {graph others : List GraphObject}
    {datasetId otherId : String}
    {creator other : Creator}
    (h : (summary graph datasetId creator).canonicalBytes =
      (summary others otherId other).canonicalBytes) :
    datasetId = otherId ∧ creator.json.normalize = other.json.normalize ∧
      graph.length = others.length := by
  have hNormal := Json.eq_of_canonicalText_eq (Bytes.ofText_injective h)
  rw [normalize_summary, normalize_summary] at hNormal
  have hMembers := Json.object.inj hNormal
  simp only [List.cons.injEq, Prod.mk.injEq, true_and, and_true,
    Json.string.injEq, Json.array.injEq] at hMembers
  obtain ⟨hCreator, hId, _, hObjects⟩ := hMembers
  have hCount := congrArg List.length hObjects
  rw [Json.length_normalizeItems, Json.length_normalizeItems, List.length_map,
    List.length_map]
    at hCount
  exact ⟨hId, hCreator, hCount⟩

/-! ## Distributions -/

namespace Distribution

/-- Everything that is hashed for the root of a distribution tree: the texts,
and the nodes below the root in pairs. -/
def messages (d : Distribution) : List Bytes := d.items ++ d.tree.messages

/-- A graph with its summary. -/
def ofGraph (graph : List GraphObject) (datasetId : String)
    (creator : Creator) : Distribution :=
  ⟨SealedGraph.summary graph datasetId creator, graph⟩

section OfGraph

variable {graph others : List GraphObject} {datasetId otherId : String}
  {creator other : Creator}

theorem items_ofGraph : (ofGraph graph datasetId creator).items =
    (SealedGraph.summary graph datasetId creator).canonicalBytes ::
      graph.map fun o => o.json.canonicalBytes := by
  rw [items, List.map_cons, List.map_map]
  rfl

/-- The text of the summary cannot be taken for a node. -/
theorem exists_item_ofGraph :
    ∃ item ∈ (ofGraph graph datasetId creator).items, item.length ≠ 64 := by
  rw [items_ofGraph]
  exact ⟨_, List.mem_cons_self,
    Nat.ne_of_gt (lt_length_summary graph datasetId creator)⟩

/-- Texts that begin other texts have their summary, and with it as many
objects. -/
theorem items_eq_of_begins
    (h : (ofGraph graph datasetId creator).items <+:
      (ofGraph others otherId other).items) :
    (ofGraph graph datasetId creator).items =
      (ofGraph others otherId other).items := by
  -- The first texts are those of the summaries, which count the others.
  refine h.eq_of_length ?_
  rw [items_ofGraph, items_ofGraph] at h ⊢
  obtain ⟨_, _, hLength⟩ := eq_of_summary_eq (List.cons_prefix_cons.mp h).1
  rw [List.length_cons, List.length_cons, List.length_map,
    List.length_map, hLength]

/-- Two distributions with one root have the same texts, or two of their
messages collide. -/
theorem items_eq_or_collision
    (hRoot : (ofGraph graph datasetId creator).tree.root =
      (ofGraph others otherId other).tree.root) :
    (ofGraph graph datasetId creator).items =
      (ofGraph others otherId other).items ∨
      Collision ((ofGraph graph datasetId creator).messages ++
        (ofGraph others otherId other).messages) := by
  rcases Tree.prefix_or_collision exists_item_ofGraph exists_item_ofGraph
    hRoot with (hPrefix | hPrefix) | hCollision
  · exact .inl (items_eq_of_begins hPrefix)
  · exact .inl (items_eq_of_begins hPrefix).symm
  · exact .inr hCollision

/-- The texts say which dataset it is, who made it, and what its objects are. -/
theorem eq_of_items_eq
    (h : (ofGraph graph datasetId creator).items =
      (ofGraph others otherId other).items) :
    datasetId = otherId ∧ creator.json.normalize = other.json.normalize ∧
      graph.map (·.json.canonicalText) = others.map (·.json.canonicalText) := by
  rw [items_ofGraph, items_ofGraph] at h
  obtain ⟨hId, hCreator, _⟩ := eq_of_summary_eq (List.head_eq_of_cons_eq h)
  have hTexts : (graph.map (·.json.canonicalText)).map Bytes.ofText =
      (others.map (·.json.canonicalText)).map Bytes.ofText := by
    rw [List.map_map, List.map_map]
    exact List.tail_eq_of_cons_eq h
  exact ⟨hId, hCreator,
    (List.map_inj_right fun _ _ => Bytes.ofText_injective).mp hTexts⟩

end OfGraph

end Distribution

/-! ## Roots of documents -/

namespace Publisher

/-- The distribution of a dataset is that of its public graph, sorted. -/
theorem distribution_eq_ok {p : Publisher} {d : Document}
    {found : Distribution} :
    p.distribution d = .ok found ↔
      ∃ datasetId header shown, d.id = some datasetId ∧ d.header = some header ∧
        p.committer.stripGraph d.graph = .ok shown ∧
        found = .ofGraph (sortGraph shown) datasetId header.creator := by
  obtain ⟨id, type, header, graph, signature, extra⟩ := d
  cases id with
  | none => exact ⟨nofun, nofun⟩
  | some datasetId =>
      cases header with
      | none => exact ⟨nofun, nofun⟩
      | some header =>
          simp only [distribution, Document.requireHeader, bind_eq_ok]
          constructor
          · rintro ⟨_, hHeader, shown, hShown, hFound⟩
            cases hHeader
            cases hFound
            exact ⟨datasetId, header, shown, rfl, rfl, hShown, rfl⟩
          · rintro ⟨_, _, shown, hId, hHeader, hShown, rfl⟩
            cases hId
            cases hHeader
            exact ⟨header, rfl, shown, hShown, rfl⟩

/-- Two documents with one root, by whatever settings, have one id and one
creator, and the texts of their public objects in sorted order are the same, or
two messages that are hashed for the root collide. -/
theorem rootHash_binds {p q : Publisher} {d e : Document} {root : Word}
    (hd : p.rootHash d = .ok root) (he : q.rootHash e = .ok root) :
    ∃ header header' shown shown' found found', d.header = some header ∧
      e.header = some header' ∧
      p.committer.stripGraph d.graph = .ok shown ∧
      q.committer.stripGraph e.graph = .ok shown' ∧
      p.distribution d = .ok found ∧ q.distribution e = .ok found' ∧
      ((d.id = e.id ∧
        header.creator.json.normalize = header'.creator.json.normalize ∧
          (sortGraph shown).map (·.json.canonicalText) =
            (sortGraph shown').map (·.json.canonicalText)) ∨
        Collision (found.messages ++ found'.messages)) := by
  obtain ⟨found, hFound, hRoot⟩ := bind_eq_ok.mp hd
  obtain ⟨found', hFound', hRoot'⟩ := bind_eq_ok.mp he
  obtain ⟨datasetId, header, shown, hId, hHeader, hShown, rfl⟩ :=
    distribution_eq_ok.mp hFound
  obtain ⟨otherId, header', shown', hId', hHeader', hShown', rfl⟩ :=
    distribution_eq_ok.mp hFound'
  refine ⟨header, header', shown, shown', _, _, hHeader, hHeader', hShown,
    hShown', hFound, hFound', ?_⟩
  have hRoots := (Except.ok.inj hRoot).trans (Except.ok.inj hRoot').symm
  rcases Distribution.items_eq_or_collision hRoots with hItems | hCollision
  · obtain ⟨hSame, hCreator, hTexts⟩ := Distribution.eq_of_items_eq hItems
    exact .inl ⟨by rw [hId, hId', hSame], hCreator, hTexts⟩
  · exact .inr hCollision

/-! ## Two documents with one root -/

/-- The publisher with the default settings. -/
def defaultPublisher : Publisher := ⟨{}, Settings.valid_default⟩

/-- A publisher for whom more properties are private. -/
def discreetPublisher : Publisher :=
  ⟨{ privacy := ⟨1, 32, ["private", "secret"]⟩ }, by decide⟩

/-- A dataset of one object that holds a private entry. -/
def entryDocument (title : String) (entry : PrivateEntry) : Document :=
  { id := some "a", header := some { title := title },
    graph := [{ properties := some [("private", .array [entry.json])] }] }

set_option maxRecDepth 100000 in
/-- The data of an entry and the title of a dataset are no part of what a root
binds. -/
theorem rootHash_binds_entries :
    ∃ root header header' shown shown' found found',
      defaultPublisher.rootHash (entryDocument "one" (.new (.bool true))) =
        .ok root ∧
      discreetPublisher.rootHash (entryDocument "other" {}) = .ok root ∧
      (entryDocument "one" (.new (.bool true))).header = some header ∧
      (entryDocument "other" {}).header = some header' ∧
      defaultPublisher.committer.stripGraph
      (entryDocument "one" (.new (.bool true))).graph = .ok shown ∧
      discreetPublisher.committer.stripGraph (entryDocument "other" {}).graph =
        .ok shown' ∧
      defaultPublisher.distribution (entryDocument "one" (.new (.bool true))) =
        .ok found ∧
      discreetPublisher.distribution (entryDocument "other" {}) = .ok found' ∧
      (((entryDocument "one" (.new (.bool true))).id =
        (entryDocument "other" {}).id ∧
          header.creator.json.normalize = header'.creator.json.normalize ∧
          (sortGraph shown).map (·.json.canonicalText) =
            (sortGraph shown').map (·.json.canonicalText)) ∨
        Collision (found.messages ++ found'.messages)) := by
  have hSome :
      (defaultPublisher.rootHash
        (entryDocument "one" (.new (.bool true)))).toOption.isSome := by
    decide +kernel
  have hSame :
      (defaultPublisher.rootHash
        (entryDocument "one" (.new (.bool true)))).toOption =
      (discreetPublisher.rootHash (entryDocument "other" {})).toOption := by
    decide +kernel
  obtain ⟨root, hRoot⟩ := Option.isSome_iff_exists.mp hSome
  have hOne := toOption_eq_some.mp hRoot
  have hOther := toOption_eq_some.mp (hSame.symm.trans hRoot)
  obtain ⟨header, header', shown, shown', found, found', hBinds⟩ :=
    rootHash_binds hOne hOther
  exact ⟨root, header, header', shown, shown', found, found', hOne,
    hOther, hBinds⟩

end Publisher
end SealedGraph
