import Mathlib
import SealedGraph.Proofs.Private.EntryHash
import SealedGraph.Proofs.Private.ReadableGraphs

/-!
# Views, object by object

The views of a graph are made object by object.  So a graph has a view exactly
when each of its objects has one, and what is wrong with one object does not
change what is made of another one.

Where a view is refused, the first thing that is wrong is reported: of the
objects in their order, of the properties of an object in the order of their
names, and of the entries of a property in their order.  An entry is refused if
it cannot be read, and, when it is to be committed to, if it has neither data
nor a hash.

## Main results

* `mapM_eq_error`, `firstRefused_iff_of_ascending`: the first refusal in a list,
  and in a table.
* `changeJson_eq_error`, `mapProperty_eq_error`, `mapObject_eq_error`: why
  entries, properties and objects are refused.
* `othersKept_of_changeJson`: the members of an entry that a view does not know.
* `view_objectwise`: a view of a graph from the views of its objects.
-/

namespace SealedGraph

open Json

/-! ## First refusals -/

theorem bind_eq_error {α β : Type} {x : Except Error α} {f : α → Except Error β}
    {e : Error} :
    x >>= f = .error e ↔ x = .error e ∨ ∃ a, x = .ok a ∧ f a = .error e := by
  cases x with
  | error cause =>
      rw [or_iff_left fun ⟨_, hOk, _⟩ => by cases hOk]
      exact ⟨fun h => congrArg Except.error (Except.error.inj h),
        fun h => congrArg Except.error (Except.error.inj h)⟩
  | ok a =>
      rw [or_iff_right nofun]
      exact ⟨fun h => ⟨a, rfl, h⟩, fun ⟨_, hSame, h⟩ => Except.ok.inj hSame ▸ h⟩

/-- Something of a list is refused in its place for a reason, and nothing before
it is refused. -/
def FirstRefused {α : Type} (refused : Nat → α → Error → Prop) (xs : List α)
    (e : Error) : Prop :=
  ∃ i x, xs[i]? = some x ∧ refused i x e ∧ ∀ j y, j < i → xs[j]? = some y →
    ∀ other, ¬ refused j y other

section FirstRefused

variable {α β : Type} {refused : Nat → α → Error → Prop} {e : Error}

theorem not_firstRefused_nil : ¬ FirstRefused refused [] e := nofun

theorem firstRefused_cons {x : α} {xs : List α} :
    FirstRefused refused (x :: xs) e ↔ refused 0 x e ∨
      (∀ other, ¬ refused 0 x other) ∧
        FirstRefused (fun i => refused (i + 1)) xs e := by
  constructor
  · rintro ⟨i, y, hy, hRefused, hBefore⟩
    cases i with
    | zero =>
        cases hy
        exact .inl hRefused
    | succ i =>
        refine .inr ⟨hBefore 0 x (Nat.succ_pos i) rfl, i, y, hy, hRefused,
          fun j z hj hz => ?_⟩
        exact hBefore (j + 1) z (Nat.succ_lt_succ hj) hz
  · rintro (hRefused | ⟨hFirst, i, y, hy, hRefused, hBefore⟩)
    · exact ⟨0, x, rfl, hRefused, fun j _ hj => absurd hj (Nat.not_lt_zero j)⟩
    · refine ⟨i + 1, y, hy, hRefused, fun j z hj hz => ?_⟩
      cases j with
      | zero =>
          cases hz
          exact hFirst
      | succ j => exact hBefore j z (Nat.lt_of_succ_lt_succ hj) hz

/-- A list of things is refused for what the first of them that is refused is
refused for. -/
theorem mapM_eq_error {f : α → Except Error β} {xs : List α} :
    xs.mapM f = .error e ↔
      FirstRefused (fun _ x other => f x = .error other) xs e := by
  induction xs with
  | nil => exact ⟨nofun, fun h => absurd h not_firstRefused_nil⟩
  | cons x xs ih =>
      rw [List.mapM_cons, bind_eq_error, firstRefused_cons, ← ih]
      refine or_congr_right ?_
      constructor
      · rintro ⟨y, hy, hRest⟩
        refine ⟨fun other h => ?_, (bind_eq_error.mp hRest).resolve_right nofun⟩
        rw [hy] at h
        cases h
      · rintro ⟨hFirst, hRest⟩
        cases hx : f x with
        | error other => exact absurd hx (hFirst other)
        | ok y => exact ⟨y, rfl, bind_eq_error.mpr (.inl hRest)⟩

/-- In a table, what comes before has a smaller name. -/
theorem firstRefused_iff_of_ascending {ms : Members α}
    (hAscending : ms.Ascending) {refused : String × α → Error → Prop} :
    FirstRefused (fun _ => refused) ms e ↔ ∃ member ∈ ms, refused member e ∧
      ∀ earlier ∈ ms, earlier.1 < member.1 → ∀ other,
        ¬ refused earlier other := by
  -- Names and indices are in the same order, so the names say what comes
  -- before.
  have hOrder {i j : Nat} {a b : String × α} (ha : ms[i]? = some a)
      (hb : ms[j]? = some b) :
      a.1 < b.1 ↔ i < j := by
    obtain ⟨hi, rfl⟩ := List.getElem?_eq_some_iff.mp ha
    obtain ⟨hj, rfl⟩ := List.getElem?_eq_some_iff.mp hb
    have hPairs := List.pairwise_iff_getElem.mp hAscending
    constructor
    · intro hNames
      by_contra hNot
      rcases Nat.lt_or_eq_of_le (Nat.le_of_not_lt hNot) with hLater | rfl
      · exact String.lt_irrefl _
          (String.lt_trans hNames (hPairs j i hj hi hLater))
      · exact String.lt_irrefl _ hNames
    · exact hPairs i j hi hj
  constructor
  · rintro ⟨i, member, hMember, hRefused, hBefore⟩
    refine ⟨member, List.mem_of_getElem? hMember, hRefused,
      fun earlier hEarlier hNames => ?_⟩
    obtain ⟨j, hj⟩ := List.mem_iff_getElem?.mp hEarlier
    exact hBefore j earlier ((hOrder hj hMember).mp hNames) hj
  · rintro ⟨member, hMember, hRefused, hBefore⟩
    obtain ⟨i, hi⟩ := List.mem_iff_getElem?.mp hMember
    refine ⟨i, member, hi, hRefused, fun j earlier hLess hj => ?_⟩
    exact hBefore earlier (List.mem_of_getElem? hj) ((hOrder hj hi).mpr hLess)

end FirstRefused

namespace Committer

/-! ## Views -/

/-- The views of a graph: with hashes, for the public, and for a holder. -/
inductive View where
  | commit
  | strip
  | hide

namespace View

/-- What a view makes of an entry. -/
def change (c : Committer) :
    View → Slot → PrivateEntry → Except Error PrivateEntry
  | .commit => c.commitAt
  | .strip => fun _ entry => .ok entry.stripped
  | .hide => fun _ entry => .ok entry.hidden

/-- The view of a graph. -/
def of (c : Committer) :
    View → List GraphObject → Except Error (List GraphObject)
  | .commit => c.commitGraph
  | .strip => c.stripGraph
  | .hide => c.hideGraph

theorem of_eq_mapM (c : Committer) (view : View) (graph : List GraphObject) :
    view.of c graph = graph.mapM (c.mapObject (view.change c)) := by
  cases view <;> rfl

theorem keeps_change (c : Committer) (view : View) : Keeps (view.change c) := by
  cases view with
  | commit => exact keeps_commitAt c
  | strip => exact keeps_stripped
  | hide => exact keeps_hidden

/-! ## Refused entries -/

/-- Why an entry is refused: it is no object, or none that can be read as an
entry, or there is nothing to commit to. -/
inductive EntryRefused (view : View) (slot : Slot) : Json → Error → Prop where
  | notObject {v : Json} (h : v.members? = none) :
      EntryRefused view slot v (.malformed (.entry slot (.entryNotObject v)))
  | unreadable {members : Members Json}
      (h : PrivateEntry.ofJson? (.object members) = none) :
      EntryRefused view slot (.object members)
        (.malformed (.entry slot .unreadable))
  | empty {v : Json} {entry : PrivateEntry} (hView : view = .commit)
      (hRead : PrivateEntry.ofJson? v = some entry)
        (hPayload : entry.payload? = none)
      (hHash : entry.hash = none) :
        EntryRefused view slot v (.emptyEntry (some slot))

variable {c : Committer} {view : View} {slot : Slot} {entry : PrivateEntry}
  {v : Json} {e : Error}

/-- Only committing refuses an entry, if it has neither data nor a hash. -/
theorem change_eq_error : view.change c slot entry = .error e ↔
    view = .commit ∧ entry.payload? = none ∧ entry.hash = none ∧
      e = .emptyEntry (some slot) := by
  cases view with
  | strip => exact ⟨nofun, fun h => nomatch h.1⟩
  | hide => exact ⟨nofun, fun h => nomatch h.1⟩
  | commit =>
      rw [and_iff_right rfl]
      show c.commitAt slot entry = .error e ↔ _
      unfold commitAt
      cases hPayload : entry.payload? with
      | some data =>
          obtain ⟨leaves, hSplit, _⟩ :=
            Blocks.splitLeaves_eq_ok data.canonicalBytes c.valid
          have hCommit :
              c.commit entry =
                .ok { entry with hash := (Merkle.Tree.build leaves).root } := by
            rw [Committer.commit, hash_eq_ok hPayload hSplit]
            rfl
          simp [hCommit]
      | none =>
          cases entry.hash with
          | some hash => simp
          | none => simp [eq_comm]

theorem readEntry_eq_error : readEntry slot v = .error e ↔
    (v.members? = none ∧ e = .malformed (.entry slot (.entryNotObject v))) ∨
      ∃ members, v = .object members ∧ PrivateEntry.ofJson? v = none ∧
        e = .malformed (.entry slot .unreadable) := by
  unfold readEntry PrivateEntry.read
  cases v with
  | object members =>
      cases hRead : PrivateEntry.ofJson? (.object members) <;>
        simp [Json.members?, Except.mapError, eq_comm]
  | _ => simp [Json.members?, Except.mapError, eq_comm]

/-- An entry is refused for one of three reasons. -/
theorem changeJson_eq_error :
    changeJson (view.change c) slot v = .error e ↔
      view.EntryRefused slot v e := by
  have hSplit : changeJson (view.change c) slot v = .error e ↔
      readEntry slot v = .error e ∨
      ∃ entry, PrivateEntry.ofJson? v = some entry ∧
      view.change c slot entry = .error e := by
    rw [changeJson, bind_eq_error]
    refine or_congr_right (exists_congr fun entry => ?_)
    rw [readEntry_eq_ok, bind_eq_error, or_iff_left]
    rintro ⟨_, _, h⟩
    cases h
  rw [hSplit, readEntry_eq_error]
  simp only [change_eq_error]
  constructor
  · rintro ((⟨hMembers, rfl⟩ | ⟨members, rfl, hRead, rfl⟩) | ⟨entry, hRead,
      hView, hPayload, hHash, rfl⟩)
    · exact .notObject hMembers
    · exact .unreadable hRead
    · exact .empty hView hRead hPayload hHash
  · intro h
    cases h with
    | notObject hMembers => exact .inl (.inl ⟨hMembers, rfl⟩)
    | unreadable hRead => exact .inl (.inr ⟨_, rfl, hRead, rfl⟩)
    | empty hView hRead hPayload hHash =>
        exact .inr ⟨_, hRead, hView, hPayload, hHash, rfl⟩

/-! ## Refused objects -/

/-- Why a private property is refused: it is no list, or for what its first
refused entry is. -/
inductive PropertyRefused (c : Committer) (view : View) (objectId : String) :
    String × Json → Error → Prop where
  | notArray {name : String} {v : Json}
      (hPrivate : c.privacy.isPrivate name = true)
      (h : v.array? = none) :
      PropertyRefused c view objectId (name, v)
        (.malformed (.notArray objectId name))
  | entry {name : String} {vs : List Json} {e : Error}
      (hPrivate : c.privacy.isPrivate name = true)
      (h : FirstRefused (fun i => view.EntryRefused ⟨objectId, name, i⟩) vs e) :
      PropertyRefused c view objectId (name, .array vs) e

/-- An object is refused for what its first refused property is. -/
def ObjectRefused (c : Committer) (view : View) (o : GraphObject) (e : Error) :
    Prop :=
  ∃ properties, o.properties = some properties ∧
    FirstRefused (fun _ => PropertyRefused c view o.id) properties e

theorem mapEntries_eq_error {objectId property : String} {index : Nat}
    {vs : List Json} :
    mapEntries (view.change c) objectId property index vs = .error e ↔
      FirstRefused (fun i => view.EntryRefused ⟨objectId, property, index + i⟩)
        vs e := by
  induction vs generalizing index with
  | nil => exact ⟨nofun, fun h => absurd h not_firstRefused_nil⟩
  | cons v vs ih =>
      have hShift :
          (fun i => view.EntryRefused ⟨objectId, property, index + (i + 1)⟩) =
            fun i => view.EntryRefused ⟨objectId, property, index + 1 + i⟩ := by
        funext i
        rw [Nat.add_comm i 1, Nat.add_assoc]
      rw [mapEntries_cons, bind_eq_error, firstRefused_cons,
        changeJson_eq_error, hShift, ← ih]
      refine or_congr_right ?_
      constructor
      · rintro ⟨w, hw, hRest⟩
        refine ⟨fun other h => ?_, (bind_eq_error.mp hRest).resolve_right nofun⟩
        rw [Nat.add_zero, ← changeJson_eq_error (c := c), hw] at h
        cases h
      · rintro ⟨hFirst, hRest⟩
        cases hv : changeJson (view.change c) ⟨objectId, property, index⟩ v with
        | error other => exact absurd (changeJson_eq_error.mp hv) (hFirst other)
        | ok w => exact ⟨w, rfl, bind_eq_error.mpr (.inl hRest)⟩

theorem mapProperty_eq_error {objectId : String} {property : String × Json} :
    c.mapProperty (view.change c) objectId property = .error e ↔
      PropertyRefused c view objectId property e := by
  obtain ⟨name, v⟩ := property
  unfold mapProperty
  by_cases hPrivate : c.privacy.isPrivate name = true
  · rw [if_pos hPrivate]
    -- Anything but a list is refused alike.
    have hOther (v : Json) (hArray : v.array? = none) :
        (.error (.malformed (.notArray objectId name)) :
          Except Error (String × Json)) = .error e ↔
          PropertyRefused c view objectId (name, v) e := by
      constructor
      · rintro ⟨⟩
        exact .notArray hPrivate hArray
      · intro h
        cases h with
        | notArray => rfl
        | entry => cases hArray
    cases v with
    | array vs =>
        show (mapEntries (view.change c) objectId name 0 vs >>= _) = _ ↔ _
        rw [bind_eq_error, or_iff_left (fun ⟨_, _, h⟩ => nomatch h),
          mapEntries_eq_error]
        simp only [Nat.zero_add]
        constructor
        · exact .entry hPrivate
        · intro h
          cases h with
          | notArray _ hNone => cases hNone
          | entry _ hFirst => exact hFirst
    | _ => exact hOther _ rfl
  · rw [if_neg hPrivate]
    refine ⟨nofun, fun h => ?_⟩
    cases h with
    | notArray hHere => exact absurd hHere hPrivate
    | entry hHere => exact absurd hHere hPrivate

theorem mapObject_eq_error {o : GraphObject} :
    c.mapObject (view.change c) o = .error e ↔ view.ObjectRefused c o e := by
  unfold mapObject ObjectRefused
  cases o.properties with
  | none => exact ⟨nofun, fun ⟨_, h, _⟩ => nomatch h⟩
  | some properties =>
      show (properties.mapM (c.mapProperty (view.change c) o.id) >>= _) = _ ↔ _
      rw [bind_eq_error, or_iff_left (fun ⟨_, _, h⟩ => nomatch h),
        mapM_eq_error]
      simp only [mapProperty_eq_error]
      exact ⟨fun h => ⟨properties, rfl, h⟩,
        fun ⟨_, hSame, h⟩ => Option.some.inj hSame ▸ h⟩

/-! ## Objects alone -/

theorem of_singleton_eq_ok {o : GraphObject} {shown : List GraphObject} :
    view.of c [o] = .ok shown ↔ ∃ o', c.mapObject (view.change c) o = .ok o' ∧
      [o'] = shown := by
  rw [of_eq_mapM, mapM_eq_ok, List.forall₂_cons_left_iff]
  simp only [List.forall₂_nil_left_iff]
  constructor
  · rintro ⟨o', _, hChange, rfl, rfl⟩
    exact ⟨o', hChange, rfl⟩
  · rintro ⟨o', hChange, rfl⟩
    exact ⟨o', [], hChange, rfl, rfl⟩

theorem of_singleton_eq_error {o : GraphObject} :
    view.of c [o] = .error e ↔ c.mapObject (view.change c) o = .error e := by
  rw [of_eq_mapM, mapM_eq_error, firstRefused_cons]
  exact or_iff_left fun h => not_firstRefused_nil h.2

end View

/-! ## What a view keeps -/

/-- Apart from the members that an entry knows, an object has those of another
one, in order. -/
def OthersKept (v w : Json) : Prop :=
  ∃ ms ns, v = .object ms ∧ w = .object ns ∧
    others (PrivateEntry.fields.map (·.1)) ns =
      Members.ofList (others (PrivateEntry.fields.map (·.1)) ms)

theorem exists_members_of_ofJson? {v : Json} {entry : PrivateEntry}
    (h : PrivateEntry.ofJson? v = some entry) :
    ∃ ms, v = .object ms ∧
      entry.extra = others (PrivateEntry.fields.map (·.1)) ms := by
  simp only [PrivateEntry.ofJson?, Option.bind_eq_bind, Option.bind_eq_some_iff]
    at h
  obtain ⟨ms, hMembers, _, _, _, _, _, _, hEntry⟩ := h
  cases hEntry
  exact ⟨ms, (object_of_members? hMembers).symm, rfl⟩

theorem othersKept_of_changeJson
    {change : Slot → PrivateEntry → Except Error PrivateEntry}
    (hKeeps : Keeps change) (slot : Slot) (v w : Json)
    (h : changeJson change slot v = .ok w) :
    OthersKept v w := by
  obtain ⟨entry, changed, hRead, hChange, rfl⟩ := changeJson_eq_ok.mp h
  have hSound := hKeeps.keepsSound (PrivateEntry.sound_of_ofJson? hRead) hChange
  obtain ⟨ms, rfl, hExtra⟩ := exists_members_of_ofJson? hRead
  obtain ⟨ns, hMembers, hOthers⟩ :=
    exists_members_of_ofJson? (PrivateEntry.ofJson?_json hSound)
  refine ⟨ms, ns, rfl, hMembers, ?_⟩
  rw [← hOthers, ← hExtra, ← (hKeeps hChange).1]
  rfl

/-- A graph has a view if each of its objects has one alone, and the view is
made of these; else it is refused for what its first refused object is, and that
is what the first refused entry is refused for, properties being taken by their
names.  In a view each object is as it was, but for what the entries of its
private properties know. -/
theorem view_objectwise (c : Committer) (view : View)
    (graph : List GraphObject) :
    ((∃ shown, view.of c graph = .ok shown) ↔
      ∀ o ∈ graph, ∃ shown, view.of c [o] = .ok shown) ∧
    (∀ shown, view.of c graph = .ok shown ↔
      List.Forall₂ (fun o o' => view.of c [o] = .ok [o']) graph shown) ∧
    (∀ e, view.of c graph = .error e ↔
      FirstRefused (fun _ o other => view.of c [o] = .error other) graph e) ∧
    (∀ o e, view.of c [o] = .error e ↔ view.ObjectRefused c o e) ∧
    (∀ o properties e, o.properties = some properties → properties.Ascending →
      (view.of c [o] = .error e ↔
        ∃ property ∈ properties, view.PropertyRefused c o.id property e ∧
        ∀ earlier ∈ properties, earlier.1 < property.1 →
          ∀ other, ¬ view.PropertyRefused c o.id earlier other)) ∧
    ∀ shown, view.of c graph = .ok shown →
    List.Forall₂ (c.ObjectRewritten OthersKept) graph shown := by
  have hObject (o : GraphObject) (e : Error) : view.of c [o] = .error e ↔
      view.ObjectRefused c o e :=
    View.of_singleton_eq_error.trans View.mapObject_eq_error
  refine ⟨?_, fun shown => ?_, fun e => ?_, hObject, ?_, fun shown hShown => ?_⟩
  · rw [View.of_eq_mapM, exists_mapM_iff]
    refine forall₂_congr fun o _ => ?_
    simp only [View.of_singleton_eq_ok]
    exact ⟨fun ⟨o', h⟩ => ⟨[o'], o', h, rfl⟩, fun ⟨_, o', h, _⟩ => ⟨o', h⟩⟩
  · rw [View.of_eq_mapM, mapM_eq_ok]
    simp only [View.of_singleton_eq_ok, List.cons.injEq, and_true,
      exists_eq_right]
  · rw [View.of_eq_mapM, mapM_eq_error]
    simp only [View.of_singleton_eq_error]
  · intro o properties e hSome hAscending
    rw [hObject, View.ObjectRefused, ← firstRefused_iff_of_ascending hAscending]
    exact ⟨fun ⟨_, hSame, h⟩ => Option.some.inj (hSome.symm.trans hSame) ▸ h,
      fun h => ⟨_, hSome, h⟩⟩
  · rw [View.of_eq_mapM] at hShown
    exact @rewritten_of_mapGraph c (view.change c) (fun _ => OthersKept)
      (othersKept_of_changeJson (view.keeps_change c)) _ _ hShown

/-! ## A graph with several faults -/

/-- Two properties are private. -/
def pairCommitter : Committer := ⟨⟨1, 32, ["a", "c"]⟩, by decide⟩

/-- An object with an entry that has a hash and a member that is not known, and
with a property that is not private. -/
def soundObject : GraphObject :=
  let committed : Json :=
    .object [("note", .null), ("private_data_hash", Word.zero.json)]
  { GraphObject.new "x" with
    properties := some [("a", .array [committed]), ("b", .bool true)] }

/-- The second of two private properties has an entry without data, something
that is no entry, and another one of these. -/
def faultyProperties : Members Json :=
  [("a", .array []), ("b", .bool true),
    ("c", .array [.object [], .bool true, .null])]

/-- A sound object, and two with faults. -/
def faultyGraph : List GraphObject :=
  [soundObject,
    { GraphObject.new "y" with properties := some faultyProperties },
    { GraphObject.new "z" with properties := some [("a", .null)] }]

/-- What is wrong comes first in the second object: to be stripped, an entry
must be an object. -/
theorem view_objectwise_faults : ∃ e,
    View.strip.of pairCommitter faultyGraph = .error e ∧
    e = .malformed (.entry ⟨"y", "c", 1⟩ (.entryNotObject (.bool true))) ∧
    FirstRefused (fun _ o other => View.strip.of pairCommitter [o] =
      .error other) faultyGraph e ∧
    (∃ property ∈ faultyProperties,
      View.strip.PropertyRefused pairCommitter "y" property e ∧
      ∀ earlier ∈ faultyProperties, earlier.1 < property.1 →
        ∀ other, ¬ View.strip.PropertyRefused pairCommitter "y" earlier other) ∧
    ∃ shown, View.commit.of pairCommitter [soundObject] = .ok shown ∧
      List.Forall₂ (pairCommitter.ObjectRewritten OthersKept) [soundObject]
        shown := by
  have hSome :
      (View.commit.of pairCommitter [soundObject]).toOption.isSome := by
    decide +kernel
  obtain ⟨shown, hShown⟩ := exists_ok hSome
  have hAscending : Members.Ascending faultyProperties := by
    simp only [faultyProperties, Members.Ascending]
    decide
  obtain ⟨_, _, hFirst, _, hNames, _⟩ :=
    view_objectwise pairCommitter .strip faultyGraph
  obtain ⟨_, _, _, _, _, hKept⟩ :=
    view_objectwise pairCommitter .commit [soundObject]
  refine ⟨_, rfl, rfl, (hFirst _).mp rfl, ?_, shown, hShown, hKept shown hShown⟩
  exact (hNames { GraphObject.new "y" with properties := some faultyProperties }
    _ _ rfl hAscending).mp rfl

/-- To be committed to, an entry must have data or a hash. -/
example :
    View.commit.of pairCommitter faultyGraph =
      .error (.emptyEntry (some ⟨"y", "c", 0⟩)) := rfl

end Committer
end SealedGraph
