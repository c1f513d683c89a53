import Mathlib.Data.List.Forall2
import SealedGraph.Private.Committer
import SealedGraph.Proofs.Hash.WordText
import SealedGraph.Proofs.Json.Records

/-!
# Views of private entries

A view changes the entries of a graph one by one, each by reading it, changing
it and writing it again.  A written entry is read as it was, its other members
in order, so that views can follow each other: what one view made of a graph
is changed by a second one as if it had been done in one go.

## Main results

* `PrivateEntry.ofJson?_json`: a written entry is read again.
* `Committer.mapGraph_of_follows`: views of a graph follow each other as those
  of entries do.
* `Committer.stripGraph_stripGraph`: a public view is its own public view.
-/

namespace SealedGraph

open Json

/-! ## Entries that are written again -/

namespace PrivateEntry

/-- Data are never `null`, and no other member has the name of a field. -/
structure Sound (e : PrivateEntry) : Prop where
  data_ne_null : e.data ≠ some .null
  apart : ∀ member ∈ e.extra, member.1 ∉ fields.map (·.1)

theorem sound_of_ofJson? {v : Json} {e : PrivateEntry}
    (h : ofJson? v = some e) : e.Sound := by
  simp only [ofJson?, Option.bind_eq_bind, Option.bind_eq_some_iff] at h
  obtain ⟨members, _, flag, _, data, hData, hash, _, he⟩ := h
  cases he
  constructor
  · intro hNull
    rw [show data = some .null from hNull] at hData
    obtain ⟨v, _, hv, hSame⟩ := exists_of_optional hData
    exact hv (Option.some.inj hSame)
  · intro member hMember
    rw [others_eq_othersAndNulls] at hMember
    exact fun hName =>
      absurd ((mem_othersAndNulls.mp hMember).2 hName).1 List.not_mem_nil

theorem stripped_hidden (e : PrivateEntry) :
    e.hidden.stripped = e.stripped := by
  unfold hidden
  split <;> rfl

theorem hidden_stripped (e : PrivateEntry) : e.stripped.hidden = e.stripped :=
  rfl

theorem hidden_hidden (e : PrivateEntry) : e.hidden.hidden = e.hidden := by
  by_cases hPrivate : e.isPrivate
  · have hHidden : e.hidden = { e with data := none } := if_pos hPrivate
    rw [hHidden]
    exact if_pos hPrivate
  · have hHidden : e.hidden = e := if_neg hPrivate
    rw [hHidden, hHidden]

/-- The entry with its other members in order. -/
def ordered (e : PrivateEntry) : PrivateEntry :=
  { e with extra := Members.ofList e.extra }

theorem Sound.ordered {e : PrivateEntry} (h : e.Sound) : e.ordered.Sound :=
  ⟨h.data_ne_null,
    fun member hMember => h.apart member (Members.mem_ofList hMember)⟩

theorem json_ordered (e : PrivateEntry) : e.ordered.json = e.json :=
  congrArg Json.object (Members.ofList_append_ofList _ e.extra)

theorem hidden_ordered (e : PrivateEntry) :
    e.ordered.hidden = e.hidden.ordered := by
  by_cases hPrivate : e.isPrivate
  · calc e.ordered.hidden = { e.ordered with data := none } := if_pos hPrivate
      _ = PrivateEntry.ordered { e with data := none } := rfl
      _ = e.hidden.ordered := congrArg ordered (if_pos hPrivate).symm
  · calc e.ordered.hidden = e.ordered := if_neg hPrivate
      _ = e.hidden.ordered := congrArg ordered (if_neg hPrivate).symm

/-- A written entry is read again. -/
theorem ofJson?_json {e : PrivateEntry} (h : e.Sound) :
    ofJson? e.json = some e.ordered := by
  obtain ⟨hTells, hOthers⟩ :=
    tells_open [("isPrivate", e.flag.map .bool), ("data", e.data),
      ("private_data_hash", e.hash.map Word.json)] (fields.map (·.1)) rfl
      (by decide) h.apart
  simp only [List.forall_mem_cons] at hTells
  obtain ⟨hFlag, hData, hHash, _⟩ := hTells
  simp only [ofJson?, Option.bind_eq_bind, Option.bind_eq_some_iff]
  refine ⟨_, rfl, e.flag, ?_, e.data, ?_, e.hash, ?_, ?_⟩
  · exact optional_of_tells hFlag fun _ _ => ⟨Json.noConfusion, rfl⟩
  · exact value_of_tells hData h.data_ne_null
  · exact optional_of_tells hHash fun word _ =>
      ⟨Json.noConfusion, word.ofJson?_json⟩
  · rw [hOthers, ordered]

end PrivateEntry

namespace Committer

/-! ## Changes of entries as JSON -/

/-- Reads an entry, changes it and writes it again. -/
def changeJson (change : Slot → PrivateEntry → Except Error PrivateEntry)
    (slot : Slot) (v : Json) : Except Error Json := do
  let entry ← readEntry slot v
  let changed ← change slot entry
  return changed.json

theorem readEntry_eq_ok {slot : Slot} {v : Json} {e : PrivateEntry} :
    readEntry slot v = .ok e ↔ PrivateEntry.ofJson? v = some e := by
  unfold readEntry PrivateEntry.read
  cases v with
  | object members =>
      cases PrivateEntry.ofJson? (.object members) <;>
        simp [Json.members?, Except.mapError]
  | _ => simp [Json.members?, Except.mapError, PrivateEntry.ofJson?]

theorem changeJson_eq_ok
    {change : Slot → PrivateEntry → Except Error PrivateEntry} {slot : Slot}
    {v w : Json} :
    changeJson change slot v = .ok w ↔ ∃ e e', PrivateEntry.ofJson? v = some e ∧
      change slot e = .ok e' ∧ e'.json = w := by
  simp only [changeJson, bind_eq_ok, readEntry_eq_ok]
  constructor
  · rintro ⟨e, hRead, e', hChange, hw⟩
    exact ⟨e, e', hRead, hChange, Except.ok.inj hw⟩
  · rintro ⟨e, e', hRead, hChange, rfl⟩
    exact ⟨e, hRead, e', hChange, rfl⟩

/-- An entry that can be read is changed and written. -/
theorem changeJson_of_read
    {change : Slot → PrivateEntry → Except Error PrivateEntry} {slot : Slot}
    {v : Json} {e : PrivateEntry} (hRead : PrivateEntry.ofJson? v = some e) :
    changeJson change slot v = (change slot e).map PrivateEntry.json := by
  rw [changeJson, readEntry_eq_ok.mpr hRead]
  rfl

/-- A change makes sound entries of sound ones. -/
def KeepsSound (change : Slot → PrivateEntry → Except Error PrivateEntry) :
    Prop :=
  ∀ ⦃slot : Slot⦄ ⦃e e' : PrivateEntry⦄, e.Sound →
    change slot e = .ok e' → e'.Sound

/-- What `second` makes of an entry that `first` changed is what `third` makes
of the entry. -/
def Follows
    (first second third : Slot → PrivateEntry → Except Error PrivateEntry) :
    Prop :=
  ∀ ⦃slot : Slot⦄ ⦃v w : Json⦄, changeJson first slot v = .ok w →
    changeJson second slot w = changeJson third slot v

section Follows

variable {c : Committer}
  {first second third : Slot → PrivateEntry → Except Error PrivateEntry}

/-- Changes follow each other if they do so on entries, which are written in
between. -/
theorem follows_of_entries (hSound : KeepsSound first)
    (h : ∀ slot e e', first slot e = .ok e' →
      (second slot e'.ordered).map PrivateEntry.json =
        (third slot e).map PrivateEntry.json) :
    Follows first second third := by
  intro slot v w hFirst
  obtain ⟨e, e', hRead, hChange, rfl⟩ := changeJson_eq_ok.mp hFirst
  have hSound' := hSound (PrivateEntry.sound_of_ofJson? hRead) hChange
  rw [changeJson_of_read (PrivateEntry.ofJson?_json hSound'),
    changeJson_of_read hRead]
  exact h slot e e' hChange

theorem mapEntries_cons
    (change : Slot → PrivateEntry → Except Error PrivateEntry)
    (objectId property : String) (index : Nat) (v : Json) (rest : List Json) :
    mapEntries change objectId property index (v :: rest) = (do
      let changed ← changeJson change ⟨objectId, property, index⟩ v
      let others ← mapEntries change objectId property (index + 1) rest
      return changed :: others) := by
  rw [mapEntries, changeJson]
  simp only [bind_assoc, pure_bind]

theorem mapEntries_of_follows (h : Follows first second third)
    {objectId property : String} {vs ws : List Json} {index : Nat}
    (hFirst : mapEntries first objectId property index vs = .ok ws) :
    mapEntries second objectId property index ws =
      mapEntries third objectId property index vs := by
  induction vs generalizing ws index with
  | nil =>
      cases hFirst
      rfl
  | cons v vs ih =>
      simp only [mapEntries_cons, bind_eq_ok] at hFirst
      obtain ⟨w, hChanged, others, hOthers, hws⟩ := hFirst
      cases hws
      rw [mapEntries_cons, mapEntries_cons, h hChanged, ih hOthers]

/-- The entries of a private property are changed, which must be a list; any
other property stays as it is. -/
theorem mapProperty_eq_ok
    {change : Slot → PrivateEntry → Except Error PrivateEntry}
    {objectId : String} {property changed : String × Json} :
    c.mapProperty change objectId property = .ok changed ↔
      (¬ c.privacy.isPrivate property.1 ∧ property = changed) ∨
      (c.privacy.isPrivate property.1 ∧ ∃ vs ws, property.2 = .array vs ∧
        mapEntries change objectId property.1 0 vs = .ok ws ∧
          (property.1, .array ws) = changed) := by
  obtain ⟨name, value⟩ := property
  unfold mapProperty
  by_cases hPrivate : c.privacy.isPrivate name
  · rw [if_pos hPrivate, or_iff_right fun hPublic => hPublic.1 hPrivate,
      and_iff_right hPrivate]
    cases value with
    | array vs =>
        simp only [bind_eq_ok]
        constructor
        · intro h
          obtain ⟨ws, hChange, hChanged⟩ := h
          exact ⟨vs, ws, rfl, hChange, Except.ok.inj hChanged⟩
        · rintro ⟨_, ws, hSame, hChange, hChanged⟩
          cases hSame
          exact ⟨ws, hChange, congrArg Except.ok hChanged⟩
    | _ => simp
  · simp [hPrivate]

theorem mapProperty_of_follows (h : Follows first second third)
    {objectId : String} {property changed : String × Json}
    (hFirst : c.mapProperty first objectId property = .ok changed) :
    c.mapProperty second objectId changed =
      c.mapProperty third objectId property := by
  rcases mapProperty_eq_ok.mp hFirst with ⟨hPublic, rfl⟩ | ⟨hPrivate, vs, ws,
    hArray, hEntries, rfl⟩
  · simp only [mapProperty, if_neg hPublic]
  · simp only [mapProperty, if_pos hPrivate, hArray,
      mapEntries_of_follows h hEntries]

/-! ## Changes of objects -/

/-- A list of things succeeds with what each of them succeeds with. -/
theorem mapM_eq_ok {α β : Type} {f : α → Except Error β} {xs : List α}
    {ys : List β} :
    xs.mapM f = .ok ys ↔ List.Forall₂ (fun x y => f x = .ok y) xs ys := by
  induction xs generalizing ys with
  | nil =>
      rw [List.forall₂_nil_left_iff]
      exact ⟨fun h => (Except.ok.inj h).symm,
        fun h => congrArg Except.ok h.symm⟩
  | cons x xs ih =>
      simp only [List.mapM_cons, bind_eq_ok, List.forall₂_cons_left_iff, ih]
      constructor
      · rintro ⟨y, hy, rest, hRest, hys⟩
        exact ⟨y, rest, hy, hRest, (Except.ok.inj hys).symm⟩
      · rintro ⟨y, rest, hy, hRest, rfl⟩
        exact ⟨y, hy, rest, hRest, rfl⟩

/-- Whatever is in a list of results is the result of something. -/
theorem exists_of_mem_mapM {α β : Type} {f : α → Except Error β} {xs : List α}
    {ys : List β} (h : xs.mapM f = .ok ys) :
    ∀ y ∈ ys, ∃ x ∈ xs, f x = .ok y := by
  have hResults := mapM_eq_ok.mp h
  clear h
  induction hResults with
  | nil => exact nofun
  | cons hFirst _ ih =>
      refine List.forall_mem_cons.mpr ⟨⟨_, List.mem_cons_self, hFirst⟩,
        fun y hy => ?_⟩
      obtain ⟨x, hx, hResult⟩ := ih y hy
      exact ⟨x, List.mem_cons_of_mem _ hx, hResult⟩

/-- What holds of single things holds of lists of them. -/
theorem mapM_of_follows {α β : Type} {f : α → Except Error α}
    {g k : α → Except Error β} (h : ∀ {x y}, f x = .ok y → g y = k x)
    {xs ys : List α} (hFirst : xs.mapM f = .ok ys) :
    ys.mapM g = xs.mapM k := by
  induction xs generalizing ys with
  | nil =>
      cases hFirst
      rfl
  | cons x xs ih =>
      simp only [List.mapM_cons, bind_eq_ok] at hFirst
      obtain ⟨y, hy, rest, hRest, hys⟩ := hFirst
      cases hys
      rw [List.mapM_cons, List.mapM_cons, h hy, ih hRest]

/-- An object without properties stays as it is; of any other one only the
properties change. -/
theorem mapObject_eq_ok
    {change : Slot → PrivateEntry → Except Error PrivateEntry}
    {o changed : GraphObject} :
    c.mapObject change o = .ok changed ↔ (o.properties = none ∧ o = changed) ∨
      ∃ properties others, o.properties = some properties ∧
        properties.mapM (c.mapProperty change o.id) = .ok others ∧
        { o with properties := some others } = changed := by
  unfold mapObject
  cases o.properties with
  | none => simp
  | some properties =>
      rw [bind_eq_ok]
      constructor
      · intro h
        obtain ⟨others, hOthers, hChanged⟩ := h
        exact .inr ⟨properties, others, rfl, hOthers, Except.ok.inj hChanged⟩
      · rintro (⟨hNone, _⟩ | ⟨_, others, hSome, hOthers, hChanged⟩)
        · cases hNone
        · cases hSome
          exact ⟨others, hOthers, congrArg Except.ok hChanged⟩

theorem mapObject_of_follows (h : Follows first second third)
    {o changed : GraphObject} (hFirst : c.mapObject first o = .ok changed) :
    c.mapObject second changed = c.mapObject third o := by
  rcases mapObject_eq_ok.mp hFirst with ⟨hNone, rfl⟩ | ⟨properties, others,
    hSome, hOthers, rfl⟩
  · simp only [mapObject, hNone]
  · simp only [mapObject, hSome,
      mapM_of_follows (mapProperty_of_follows h) hOthers]

/-- Views of a graph follow each other as the changes of entries do. -/
theorem mapGraph_of_follows (h : Follows first second third)
    {graph changed : List GraphObject}
    (hFirst : graph.mapM (c.mapObject first) = .ok changed) :
    changed.mapM (c.mapObject second) = graph.mapM (c.mapObject third) :=
  mapM_of_follows (mapObject_of_follows h) hFirst

/-- A view by a form of entries that does not depend on the order of other
members: what it makes of a changed graph is seen on single entries. -/
theorem mapGraph_of_eq (form other : PrivateEntry → PrivateEntry)
    (hSound : KeepsSound first)
    (hOrdered : ∀ e, form e.ordered = (form e).ordered)
    (hSame : ∀ slot e e', first slot e = .ok e' → form e' = other e)
    {graph changed : List GraphObject}
    (hFirst : graph.mapM (c.mapObject first) = .ok changed) :
    changed.mapM (c.mapObject fun _ e => .ok (form e)) =
      graph.mapM (c.mapObject fun _ e => .ok (other e)) := by
  apply mapGraph_of_follows (follows_of_entries hSound _) hFirst
  intro slot e e' hChange
  show Except.ok (form e'.ordered).json = Except.ok (other e).json
  rw [hOrdered, PrivateEntry.json_ordered, hSame slot e e' hChange]

end Follows

/-! ## Changes that put nothing in -/

/-- A change leaves the other members of an entry, and its data unless it takes
them away. -/
def Keeps (change : Slot → PrivateEntry → Except Error PrivateEntry) : Prop :=
  ∀ ⦃slot : Slot⦄ ⦃e e' : PrivateEntry⦄, change slot e = .ok e' →
    e'.extra = e.extra ∧ (e'.data = e.data ∨ e'.data = none)

theorem keeps_commitAt (c : Committer) : Keeps c.commitAt := by
  intro slot e e' hChange
  unfold commitAt at hChange
  split at hChange
  · obtain ⟨hash, _, hCommit⟩ := bind_eq_ok.mp hChange
    cases hCommit
    exact ⟨rfl, .inl rfl⟩
  · cases hChange
    exact ⟨rfl, .inl rfl⟩
  · cases hChange

theorem keeps_stripped : Keeps fun _ entry => .ok entry.stripped := by
  intro slot e e' hChange
  cases hChange
  exact ⟨rfl, .inr rfl⟩

theorem keeps_hidden : Keeps fun _ entry => .ok entry.hidden := by
  intro slot e e' hChange
  cases hChange
  unfold PrivateEntry.hidden
  split
  · exact ⟨rfl, .inr rfl⟩
  · exact ⟨rfl, .inl rfl⟩

theorem Keeps.keepsSound
    {change : Slot → PrivateEntry → Except Error PrivateEntry}
    (hKeeps : Keeps change) : KeepsSound change := by
  intro slot e e' hSound hChange
  obtain ⟨hExtra, hData⟩ := hKeeps hChange
  refine ⟨?_, hExtra ▸ hSound.apart⟩
  rcases hData with hData | hData
  · rw [hData]
    exact hSound.data_ne_null
  · rw [hData]
    exact nofun

/-! ## The public view -/

section Public

variable {c : Committer}
  {change : Slot → PrivateEntry → Except Error PrivateEntry}
  {graph changed stripped : List GraphObject}

/-- A change that leaves other members and hash of an entry does not show in the
public view. -/
theorem stripGraph_of_view (hSound : KeepsSound change)
    (hSame : ∀ slot e e', change slot e = .ok e' → e'.stripped = e.stripped)
    (h : graph.mapM (c.mapObject change) = .ok changed) :
    c.stripGraph changed = c.stripGraph graph :=
  mapGraph_of_eq .stripped .stripped hSound (fun _ => rfl) hSame h

/-- A public view is its own public view. -/
theorem stripGraph_stripGraph (h : c.stripGraph graph = .ok stripped) :
    c.stripGraph stripped = .ok stripped := by
  have hSame : c.stripGraph stripped = c.stripGraph graph :=
    stripGraph_of_view keeps_stripped.keepsSound
      (fun _ _ _ hChange => by cases hChange; rfl) h
  exact hSame.trans h

end Public

end Committer
end SealedGraph
