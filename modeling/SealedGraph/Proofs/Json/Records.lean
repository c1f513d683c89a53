import SealedGraph.Json.Record
import SealedGraph.Proofs.Json.Tidy

/-!
# Records that are read and written again

A reader and a writer are faithful if what is read from a tidy value is
written as a tidy value, which is read as the same thing again.  The written
value may differ from the one that was read: defaults are written out, and
the same word may have been spelled otherwise.

A record is put together from its fields and from other members.  Faithful
readers of the fields make a faithful reader of the record, as long as no
other member has the name of a field, parked nulls apart.

## Main results

* `faithful_listOf?`, `faithful_tableOf?`: arrays and tables of faithful things.
* `optional_field`, `defaulted_field`, `required_field`: what a field stands
  for.
* `Recorded.tidy`, `Recorded.lookup_written`, `Recorded.othersAndNulls_written`:
  what a written record holds.
* `tells_open`: the same for a record that keeps no nulls.
* `rewritten_record`, `rewritten_open`: the same for records that were read.
-/

namespace SealedGraph.Json

/-! ## Faithful readers -/

section Faithful

variable {α : Type}

/-- What is written for `x`, which was read from `v`. -/
structure Rewritten (read : Json → Option α) (write : α → Json) (room : Nat)
    (v : Json) (x : α) : Prop where
  tidy : Tidy room (write x)
  read_write : read (write x) = some x
  ne_null : v ≠ .null → write x ≠ .null

/-- Whatever is read from a tidy value is written in the same room and read
again, if there is room for `least` containers. -/
def Faithful (read : Json → Option α) (write : α → Json) (least : Nat) : Prop :=
  ∀ ⦃room : Nat⦄ ⦃v : Json⦄ ⦃x : α⦄, least ≤ room → Tidy room v →
    read v = some x →
    Rewritten read write room v x

/-- A view of one kind of values gives back the value that it was taken from. -/
theorem faithful_of_inverse {read : Json → Option α} {write : α → Json}
    (h : ∀ {v x}, read v = some x → write x = v) : Faithful read write 0 := by
  intro room v x _ hTidy hRead
  have hSame := h hRead
  exact ⟨by rw [hSame]; exact hTidy, by rw [hSame]; exact hRead,
    by rw [hSame]; exact id⟩

theorem faithful_some : Faithful some id 0 :=
  faithful_of_inverse fun h => (Option.some.inj h).symm

theorem string_of_string? {v : Json} {text : String}
    (h : v.string? = some text) :
    .string text = v := by
  cases v <;> simp_all [string?]

theorem array_of_array? {v : Json} {items : List Json}
    (h : v.array? = some items) :
    .array items = v := by
  cases v <;> simp_all [array?]

theorem object_of_members? {v : Json} {members : Members Json}
    (h : v.members? = some members) :
    .object members = v := by
  cases v <;> simp_all [members?]

theorem faithful_string? : Faithful string? .string 0 :=
  faithful_of_inverse string_of_string?

theorem faithful_array? : Faithful array? .array 0 :=
  faithful_of_inverse array_of_array?

theorem faithful_members? : Faithful members? .object 0 :=
  faithful_of_inverse object_of_members?

private theorem mapM_items {read : Json → Option α} {write : α → Json}
    {least room : Nat} (h : Faithful read write least) (hRoom : least ≤ room)
    {items : List Json} {xs : List α} (hTidy : ∀ item ∈ items, Tidy room item)
    (hRead : items.mapM read = some xs) :
    (∀ item ∈ xs.map write, Tidy room item) ∧
      (xs.map write).mapM read = some xs := by
  induction items generalizing xs with
  | nil =>
      cases hRead
      exact ⟨fun _ hMem => absurd hMem List.not_mem_nil, rfl⟩
  | cons item items ih =>
      simp only [List.mapM_cons, Option.bind_eq_bind, Option.bind_eq_some_iff]
        at hRead
      obtain ⟨x, hx, rest, hRest, hxs⟩ := hRead
      cases hxs
      obtain ⟨hItem, hItems⟩ := List.forall_mem_cons.mp hTidy
      have hFirst := h hRoom hItem hx
      obtain ⟨hOthers, hAgain⟩ := ih hItems hRest
      constructor
      · exact List.forall_mem_cons.mpr ⟨hFirst.tidy, hOthers⟩
      · rw [List.map_cons, List.mapM_cons, hFirst.read_write, hAgain]
        rfl

theorem faithful_listOf? {read : Json → Option α} {write : α → Json}
    {least : Nat} (h : Faithful read write least) :
    Faithful (listOf? read) (fun xs => .array (xs.map write)) (least + 1) := by
  intro room v xs hRoom hTidy hRead
  obtain ⟨items, hItems, hxs⟩ := Option.bind_eq_some_iff.mp hRead
  cases array_of_array? hItems
  obtain ⟨inner, rfl⟩ := hTidy.exists_room_array
  obtain ⟨hWritten, hAgain⟩ :=
    mapM_items h (Nat.le_of_succ_le_succ hRoom) (tidy_array.mp hTidy) hxs
  exact ⟨tidy_array.mpr hWritten, hAgain, fun _ => Json.noConfusion⟩

private theorem mapM_members {read : Json → Option α} {write : α → Json}
    {least room : Nat} (h : Faithful read write least) (hRoom : least ≤ room)
    {members : Members Json} {xs : Members α}
    (hTidy : ∀ member ∈ members, Tidy room member.2)

    (hRead :
      members.mapM (fun member => (read member.2).map (member.1, ·)) =
        some xs) :
    xs.map (·.1) = members.map (·.1) ∧
      (∀ member ∈ xs.map fun x => (x.1, write x.2), Tidy room member.2) ∧
      (xs.map fun x => (x.1, write x.2)).mapM
        (fun member => (read member.2).map (member.1, ·)) = some xs := by
  induction members generalizing xs with
  | nil =>
      cases hRead
      exact ⟨rfl, fun _ hMem => absurd hMem List.not_mem_nil, rfl⟩
  | cons member members ih =>
      simp only [List.mapM_cons, Option.bind_eq_bind, Option.bind_eq_some_iff]
        at hRead
      obtain ⟨_, hPair, rest, hRest, hxs⟩ := hRead
      obtain ⟨x, hx, rfl⟩ := Option.map_eq_some_iff.mp hPair
      cases hxs
      obtain ⟨hValue, hValues⟩ := List.forall_mem_cons.mp hTidy
      have hFirst := h hRoom hValue hx
      obtain ⟨hNames, hOthers, hAgain⟩ := ih hValues hRest
      refine ⟨congrArg (member.1 :: ·) hNames, ?_, ?_⟩
      · exact List.forall_mem_cons.mpr ⟨hFirst.tidy, hOthers⟩
      · rw [List.map_cons, List.mapM_cons, hFirst.read_write, hAgain]
        rfl

/-- The order of a table depends on its names only. -/
private theorem ascending_of_names {β : Type} {ms : Members α} {ns : Members β}
    (hNames : ns.map (·.1) = ms.map (·.1)) (h : ms.Ascending) :
    ns.Ascending := by
  have hMap := List.pairwise_map.mpr h
  rw [← hNames] at hMap
  exact List.pairwise_map.mp hMap

theorem faithful_tableOf? {read : Json → Option α} {write : α → Json}
    {least : Nat} (h : Faithful read write least) :
    Faithful (tableOf? read)
      (fun xs => .object (xs.map fun x => (x.1, write x.2))) (least + 1) := by
  intro room v xs hRoom hTidy hRead
  obtain ⟨members, hMembers, hxs⟩ := Option.bind_eq_some_iff.mp hRead
  cases object_of_members? hMembers
  obtain ⟨inner, rfl⟩ := hTidy.exists_room_object
  obtain ⟨hAscending, hValues⟩ := tidy_object.mp hTidy
  obtain ⟨hNames, hWritten, hAgain⟩ :=
    mapM_members h (Nat.le_of_succ_le_succ hRoom) hValues hxs
  have hOrder : Members.Ascending (xs.map fun x => (x.1, write x.2)) := by
    refine ascending_of_names ?_ hAscending
    rw [List.map_map, ← hNames]
    rfl
  exact ⟨tidy_object.mpr ⟨hOrder, hWritten⟩, hAgain, fun _ => Json.noConfusion⟩

end Faithful

/-! ## Fields -/

section Fields

variable {α : Type}

/-- What a table of members tells about a field: its value; or, if it has none,
nothing or a parked null. -/
def Tells (members : Members Json) (field : String × Option Json) : Prop :=
  members.lookup field.1 = field.2 ∨
    (field.2 = none ∧ members.lookup field.1 = some .null)

/-- How a field is written.  No null is written for a field of which nulls are
kept. -/
structure Fit (nullable : List String) (room : Nat)
    (field : String × Option Json) : Prop where
  tidy : ∀ v, field.2 = some v → Tidy room v
  filled : field.1 ∈ nullable → field.2 ≠ some .null

/-- A field that was taken from members, which held no null for it if it has a
value. -/
structure Held (nullable : List String) (room : Nat) (members : Members Json)
    (field : String × Option Json) : Prop extends Fit nullable room field where
  unparked : field.1 ∈ nullable → field.2 ≠ none →
    members.lookup field.1 ≠ some .null

/-- A field that `get` took from members, and takes again from whatever tells
the same. -/
structure Field (nullable : List String) (room : Nat) (members : Members Json)
    (get : Members Json → Option α) (field : String × Option Json) (x : α) :
    Prop extends
    Held nullable room members field where
  again : ∀ {written}, Tells written field → get written = some x

variable (nullable : List String) {room : Nat} {members : Members Json}
  {name : String}

theorem fit_none : Fit nullable room (name, none) := by
  constructor
  · intro _ h
    cases h
  · intro _ h
    cases h

theorem fit_some {v : Json} (hTidy : Tidy room v)
    (hv : name ∈ nullable → v ≠ .null) :
    Fit nullable room (name, some v) := by
  constructor
  · intro _ h
    cases h
    exact hTidy
  · intro hName h
    exact hv hName (Option.some.inj h)

/-- The value of an optional field is read from something other than `null`. -/
theorem exists_of_optional {read : Json → Option α} {x : α}
    (h : optional members name read = some (some x)) :
    ∃ v, members.lookup name = some v ∧ v ≠ .null ∧ read v = some x := by
  unfold optional at h
  split at h
  · cases h
  · cases h
  · next v hNull hLookup =>
    obtain ⟨_, hx, hSame⟩ := Option.map_eq_some_iff.mp h
    cases hSame
    exact ⟨v, hLookup, hNull, hx⟩

theorem optional_eq_none {written : Members Json} {read : Json → Option α}
    (h : Tells written (name, none)) :
    optional written name read = some none := by
  rcases h with h | ⟨_, h⟩
  · rw [optional, show written.lookup name = none from h]
  · rw [optional, show written.lookup name = some .null from h]

theorem optional_eq_some {written : Members Json} {read : Json → Option α}
    {v : Json} {x : α} (h : Tells written (name, some v)) (hv : v ≠ .null)
    (hRead : read v = some x) :
    optional written name read = some (some x) := by
  rcases h with h | ⟨h, _⟩
  · rw [optional, show written.lookup name = some v from h]
    cases v with
    | null => exact absurd rfl hv
    | _ => simp only [hRead, Option.map_some]
  · cases h

theorem value_of_tells {written : Members Json} {x : Option Json}
    (hTells : Tells written (name, x)) (hValue : x ≠ some .null) :
    optional written name some = some x := by
  cases x with
  | none => exact optional_eq_none hTells
  | some v =>
      exact optional_eq_some hTells
        (fun hNull => hValue (congrArg some hNull)) rfl

theorem optional_of_tells {written : Members Json} {read : Json → Option α}
    {write : α → Json} {x : Option α}
    (hTells : Tells written (name, x.map write))
    (hWrite : ∀ a, x = some a → write a ≠ .null ∧ read (write a) = some a) :
    optional written name read = some x := by
  cases x with
  | none => exact optional_eq_none hTells
  | some a => exact optional_eq_some hTells (hWrite a rfl).1 (hWrite a rfl).2

/-- A field that may be left out. -/
theorem optional_field {read : Json → Option α} {write : α → Json} {least : Nat}
    (hFaithful : Faithful read write least) (hRoom : least ≤ room)
    (hMembers : ∀ member ∈ members, Tidy room member.2) {x : Option α}
    (hRead : optional members name read = some x) :
    Field nullable room members (fun ms => optional ms name read)
      (name, x.map write) x := by
  cases x with
  | none =>
      exact ⟨⟨fit_none nullable, fun _ h => absurd rfl h⟩, optional_eq_none⟩
  | some x =>
      obtain ⟨v, hLookup, hv, hx⟩ := exists_of_optional hRead
      have hTidy := hMembers _ (Members.mem_of_lookup hLookup)
      have hWritten := hFaithful hRoom hTidy hx
      refine ⟨⟨fit_some nullable hWritten.tidy fun _ => hWritten.ne_null hv,
        fun _ _ h => ?_⟩,
        fun h => optional_eq_some h (hWritten.ne_null hv) hWritten.read_write⟩
      rw [hLookup] at h
      exact hv (Option.some.inj h)

/-- A field that may be left out and holds any value. -/
theorem value_field (hMembers : ∀ member ∈ members, Tidy room member.2)
    {x : Option Json} (hRead : optional members name some = some x) :
    Field nullable room members (fun ms => optional ms name some)
      (name, x) x := by
  have hField :=
    optional_field nullable faithful_some (Nat.zero_le room) hMembers hRead
  rw [Option.map_id] at hField
  exact hField

/-- A field that is always written, and of which no null is kept. -/
theorem written_field {read : Json → Option α} {write : α → Json} {x : α}
    {get : Members Json → Option α} (hName : name ∉ nullable)
    (hTidy : Tidy room (write x))
    (hGet : ∀ written : Members Json, written.lookup name = some (write x) →
      get written = read (write x)) (hRead : read (write x) = some x) :
    Field nullable room members get (name, some (write x)) x := by
  refine ⟨⟨fit_some nullable hTidy fun h => absurd h hName,
    fun h => absurd h hName⟩, fun h => ?_⟩
  rcases h with h | ⟨h, _⟩
  · rw [hGet _ h, hRead]
  · cases h

/-- A field that has a default. -/
theorem defaulted_field {read : Json → Option α} {write : α → Json}
    {least : Nat} (hFaithful : Faithful read write least) (hRoom : least ≤ room)
    (hName : name ∉ nullable)
    (hMembers : ∀ member ∈ members, Tidy room member.2) {default x : α}
    (hTidy : Tidy room (write default))
    (hDefault : read (write default) = some default)
    (hRead : defaulted members name read default = some x) :
    Field nullable room members (fun ms => defaulted ms name read default)
      (name, some (write x)) x := by
  have hGet : ∀ written : Members Json, written.lookup name = some (write x) →
      defaulted written name read default =
        read (write x) := fun written h => by
    rw [defaulted, h]
  unfold defaulted at hRead
  split at hRead
  · cases hRead
    exact written_field nullable hName hTidy hGet hDefault
  · next v hLookup =>
    have hWritten :=
      hFaithful hRoom (hMembers _ (Members.mem_of_lookup hLookup)) hRead
    exact written_field nullable hName hWritten.tidy hGet hWritten.read_write

/-- A list that is empty when it is left out. -/
theorem list_field {read : Json → Option α} {write : α → Json} {least : Nat}
    (hFaithful : Faithful read write least) (hRoom : least + 1 ≤ room)
    (hName : name ∉ nullable)
    (hMembers : ∀ member ∈ members, Tidy room member.2) {xs : List α}
    (hRead : defaulted members name (listOf? read) [] = some xs) :
    Field nullable room members (fun ms => defaulted ms name (listOf? read) [])
      (name, some (.array (xs.map write))) xs := by
  have hEmpty : Tidy room (.array (([] : List α).map write)) :=
    tidy_nil (by omega)
  exact defaulted_field nullable (faithful_listOf? hFaithful)
    hRoom hName hMembers hEmpty rfl hRead

/-- A table that is empty when it is left out. -/
theorem table_field {read : Json → Option α} {write : α → Json} {least : Nat}
    (hFaithful : Faithful read write least) (hRoom : least + 1 ≤ room)
    (hName : name ∉ nullable)
    (hMembers : ∀ member ∈ members, Tidy room member.2) {xs : Members α}
    (hRead : defaulted members name (tableOf? read) [] = some xs) :
    Field nullable room members (fun ms => defaulted ms name (tableOf? read) [])
      (name, some (.object (xs.map fun x => (x.1, write x.2)))) xs := by
  have hEmpty :
      Tidy room (.object (([] : Members α).map fun x => (x.1, write x.2))) :=
    tidy_blank (by omega)
  exact defaulted_field nullable (faithful_tableOf? hFaithful)
    hRoom hName hMembers hEmpty rfl hRead

/-- A field that must be there. -/
theorem required_field {read : Json → Option α} {write : α → Json} {least : Nat}
    (hFaithful : Faithful read write least) (hRoom : least ≤ room)
    (hName : name ∉ nullable)
    (hMembers : ∀ member ∈ members, Tidy room member.2) {x : α}
    (hRead : required members name read = some x) :
    Field nullable room members (fun ms => required ms name read)
      (name, some (write x)) x := by
  obtain ⟨v, hLookup, hx⟩ := Option.bind_eq_some_iff.mp hRead
  have hWritten :=
    hFaithful hRoom (hMembers _ (Members.mem_of_lookup hLookup)) hx
  refine written_field nullable hName hWritten.tidy
    (fun written h => ?_) hWritten.read_write
  rw [required, h, Option.bind_some]

/-- Fields that were taken from members; whatever tells the same of all of them
is read alike, which `P` says. -/
structure AllHeld (nullable : List String) (room : Nat) (members : Members Json)
    (fields : List (String × Option Json)) (P : Members Json → Prop) :
    Prop where
  held : ∀ field ∈ fields, Held nullable room members field
  again : ∀ {written}, (∀ field ∈ fields, Tells written field) → P written

variable {nullable} {get : Members Json → Option α}
  {field : String × Option Json} {x : α}

theorem Field.alone (h : Field nullable room members get field x) :
    AllHeld nullable room members [field] fun written =>
      get written = some x := by
  constructor
  · exact List.forall_mem_singleton.mpr h.toHeld
  · intro written hTells
    exact h.again (hTells field (List.mem_singleton_self field))

theorem Field.and {fields : List (String × Option Json)}
    {P : Members Json → Prop} (h : Field nullable room members get field x)
    (hs : AllHeld nullable room members fields P) :
    AllHeld nullable room members (field :: fields) fun written =>
      get written = some x ∧ P written := by
  constructor
  · exact List.forall_mem_cons.mpr ⟨h.toHeld, hs.held⟩
  · intro written hTells
    obtain ⟨hField, hFields⟩ := List.forall_mem_cons.mp hTells
    exact ⟨h.again hField, hs.again hFields⟩

end Fields

/-! ## Records -/

section Records

variable {fields : List (String × Option Json)} {names nullable : List String}
  {room : Nat} {members extra : Members Json}

/-- The members of a written record. -/
def written (fields : List (String × Option Json)) (extra : Members Json) :
    Members Json :=
  Members.ofList (present fields ++ unshadowed fields extra)

/-- Fields and other members that belong together: only a parked null has the
name of a field. -/
structure Recorded (names nullable : List String)
    (fields : List (String × Option Json)) (extra : Members Json) : Prop where
  distinct : (fields.map (·.1)).Nodup
  named : ∀ field ∈ fields, field.1 ∈ names
  filled : ∀ field ∈ fields, field.1 ∈ nullable → field.2 ≠ some .null
  ascending : extra.Ascending
  apart : ∀ member ∈ extra, member.1 ∈ names → member.1 ∈ nullable ∧
    member.2 = .null

theorem mem_present {member : String × Json} :
    member ∈ present fields ↔ (member.1, some member.2) ∈ fields := by
  unfold present
  rw [List.mem_filterMap]
  constructor
  · rintro ⟨⟨name, value⟩, hField, h⟩
    obtain ⟨v, hv, rfl⟩ := Option.map_eq_some_iff.mp h
    rw [← show value = some v from hv]
    exact hField
  · intro h
    exact ⟨(member.1, some member.2), h, rfl⟩

theorem isNull_iff {v : Json} : v.isNull = true ↔ v = .null := by
  cases v <;> simp [isNull]

theorem mem_unshadowed {member : String × Json} :
    member ∈ unshadowed fields extra ↔ member ∈ extra ∧
      (member.2 = .null → ∀ v, (member.1, some v) ∉ fields) := by
  simp only [unshadowed, List.mem_filter, Bool.not_eq_true', ← Bool.not_eq_true,
    Bool.and_eq_true, isNull_iff, List.any_eq_true, decide_eq_true_eq]
  refine and_congr_right fun _ => ?_
  constructor
  · intro h hNull v hField
    exact h ⟨hNull, (member.1, v), mem_present.mpr hField, rfl⟩
  · rintro h ⟨hNull, ⟨_, v⟩, hPresent, hName⟩
    have hField := mem_present.mp hPresent
    exact h hNull v (hName ▸ hField)

theorem mem_othersAndNulls {member : String × Json} :
    member ∈ othersAndNulls names nullable members ↔ member ∈ members ∧
      (member.1 ∈ names → member.1 ∈ nullable ∧ member.2 = .null) := by
  simp only [othersAndNulls, List.mem_filter, Bool.or_eq_true,
    Bool.not_eq_true', ← Bool.not_eq_true, Bool.and_eq_true,
    List.contains_iff_mem, isNull_iff]
  refine and_congr_right fun _ => ?_
  constructor
  · rintro (h | h) hName
    · exact absurd hName h
    · exact h
  · intro h
    by_cases hName : member.1 ∈ names
    · exact .inr (h hName)
    · exact .inl hName

theorem lookup_othersAndNulls {name : String} (h : name ∉ names) :
    (othersAndNulls names nullable members).lookup name =
      members.lookup name := by
  apply Members.lookup_filter
  intro value
  simp [h]

/-- A record that keeps no nulls has other members only. -/
theorem others_eq_othersAndNulls :
    others names members = othersAndNulls names [] members := by
  simp [others, othersAndNulls]

theorem lookup_others (names : List String) {name : String} (h : name ∉ names)
    (ms : Members Json) :
    (others names ms).lookup name = ms.lookup name := by
  rw [others_eq_othersAndNulls]
  exact lookup_othersAndNulls h

/-- No member is left over under a name that is taken up. -/
theorem lookup_others_of_mem {name : String} (h : name ∈ names)
    (ms : Members Json) :
    (others names ms).lookup name = none := by
  refine List.lookup_eq_none_iff.mpr fun member hMember => ?_
  rw [others_eq_othersAndNulls] at hMember
  have hApart := (mem_othersAndNulls.mp hMember).2
  apply bne_iff_ne.mpr
  intro hName
  exact absurd (hApart (hName ▸ h)).1 List.not_mem_nil

/-- The name of a field that has a value is not among the other members that are
written. -/
theorem disjoint_names (h : Recorded names nullable fields extra)
    {name : String} {v u : Json} (hField : (name, some v) ∈ fields) :
    (name, u) ∉ unshadowed fields extra := by
  intro hMember
  obtain ⟨hExtra, hShadow⟩ := mem_unshadowed.mp hMember
  have hNull := (h.apart _ hExtra (h.named _ hField)).2
  exact hShadow hNull v hField

private theorem nodup_present (h : (fields.map (·.1)).Nodup) :
    ((present fields).map (·.1)).Nodup := by
  refine h.sublist ?_
  unfold present
  induction fields with
  | nil => exact List.Sublist.slnil
  | cons field rest ih =>
      obtain ⟨name, value⟩ := field
      have hRest := ih (List.nodup_cons.mp h).2
      cases value with
      | none => exact hRest.cons name
      | some v => exact hRest.cons_cons name

namespace Recorded

variable (h : Recorded names nullable fields extra)
include h

theorem nodup_names :
    ((present fields ++ unshadowed fields extra).map (·.1)).Nodup := by
  rw [List.map_append, List.nodup_append]
  refine ⟨nodup_present h.distinct,
    Members.nodup_names (Members.ascending_filter _ h.ascending), ?_⟩
  rintro _ hPresent _ hOther rfl
  obtain ⟨⟨name, v⟩, hField, rfl⟩ := List.mem_map.mp hPresent
  obtain ⟨⟨_, u⟩, hMember, rfl⟩ := List.mem_map.mp hOther
  exact disjoint_names h (mem_present.mp hField) hMember

theorem mem_written {member : String × Json} :
    member ∈ written fields extra ↔
      (member.1, some member.2) ∈ fields ∨
        member ∈ unshadowed fields extra := by
  rw [written, Members.mem_ofList_iff h.nodup_names, List.mem_append,
    mem_present]

theorem tidy (hFields : ∀ field ∈ fields, ∀ v, field.2 = some v → Tidy room v)
    (hExtra : ∀ member ∈ extra, Tidy room member.2) :
    Tidy (room + 1) (ofNullKeeping fields extra) := by
  refine tidy_object.mpr ⟨Members.ascending_ofList _, fun member hMember => ?_⟩
  rcases h.mem_written.mp hMember with hField | hOther
  · exact hFields _ hField _ rfl
  · exact hExtra member (mem_unshadowed.mp hOther).1

/-- The numbers of a record are those of its fields and of its other members,
for nothing but nulls gives way to a field. -/
theorem readsBack_iff : (ofNullKeeping fields extra).ReadsBack ↔
    (∀ field ∈ fields, ∀ v, field.2 = some v → v.ReadsBack) ∧
      ∀ member ∈ extra, member.2.ReadsBack := by
  rw [ofNullKeeping, ofOpen, readsBack_object]
  constructor
  · intro hWritten
    refine ⟨fun field hField v hv => ?_, fun member hMember => ?_⟩
    · exact hWritten (field.1, v) (h.mem_written.mpr (.inl (hv ▸ hField)))
    · by_cases hNull : member.2 = .null
      · exact hNull ▸ readsBack_null
      · exact hWritten member (h.mem_written.mpr
          (.inr (mem_unshadowed.mpr ⟨hMember,
            fun hSame => absurd hSame hNull⟩)))
  · rintro ⟨hFields, hExtra⟩ member hMember
    rcases h.mem_written.mp hMember with hField | hOther
    · exact hFields _ hField _ rfl
    · exact hExtra member (mem_unshadowed.mp hOther).1

/-- Under a name for which no field has a value is found what the other members
hold. -/
theorem lookup_written_of_free {name : String}
    (hFree : ∀ v, (name, some v) ∉ fields) :
    (written fields extra).lookup name = extra.lookup name := by
  refine Members.lookup_congr (Members.ascending_ofList _) h.ascending fun v =>
    ?_
  rw [h.mem_written, mem_unshadowed]
  constructor
  · intro hMember
    exact (hMember.resolve_left (hFree v)).1
  · intro hMember
    exact .inr ⟨hMember, fun _ => hFree⟩

/-- Under the name of a field is found its value, or else what is parked
there. -/
theorem lookup_written {name : String} {x : Option Json}
    (hField : (name, x) ∈ fields) :
    (written fields extra).lookup name = x.or (extra.lookup name) := by
  cases x with
  | some v =>
      exact Members.lookup_of_mem (Members.ascending_ofList _)
        (h.mem_written.mpr (.inl hField))
  | none =>
      apply h.lookup_written_of_free
      intro v hOther
      cases List.inj_on_of_nodup_map h.distinct hOther hField rfl

theorem tells : ∀ field ∈ fields, Tells (written fields extra) field := by
  rintro ⟨name, value⟩ hField
  have hLookup := h.lookup_written hField
  cases value with
  | some v => exact .inl hLookup
  | none =>
      cases hParked : extra.lookup name with
      | none => exact .inl (hLookup.trans hParked)
      | some u =>
          have hNull :=
            (h.apart _ (Members.mem_of_lookup hParked) (h.named _ hField)).2
          exact .inr ⟨rfl, hLookup.trans (hParked.trans (congrArg some hNull))⟩

/-- The other members that are written are found again. -/
theorem othersAndNulls_written :
    othersAndNulls names nullable (written fields extra) =
      unshadowed fields extra := by
  refine Members.eq_of_mem_iff
    (Members.ascending_filter _ (Members.ascending_ofList _))
    (Members.ascending_filter _ h.ascending) fun member => ?_
  rw [mem_othersAndNulls, h.mem_written]
  constructor
  · rintro ⟨hField | hOther, hApart⟩
    · obtain ⟨hNullable, hNull⟩ := hApart (h.named _ hField)
      exact absurd (congrArg some hNull) (h.filled _ hField hNullable)
    · exact hOther
  · intro hOther
    exact ⟨.inr hOther, h.apart _ (mem_unshadowed.mp hOther).1⟩

end Recorded

/-- What is left over of members in order belongs beside the fields. -/
theorem recorded_beside (hDistinct : (fields.map (·.1)).Nodup)
    (hNamed : ∀ field ∈ fields, field.1 ∈ names)
    (hFilled : ∀ field ∈ fields, field.1 ∈ nullable → field.2 ≠ some .null)
    (hAscending : members.Ascending) :
    Recorded names nullable fields (othersAndNulls names nullable members) := by
  refine ⟨hDistinct, hNamed, hFilled, Members.ascending_filter _ hAscending, ?_⟩
  intro member hMember
  exact (mem_othersAndNulls.mp hMember).2

/-- The same for tidy members, which make a tidy record. -/
theorem recorded_of_members (order : List String)
    (hOrder : fields.map (·.1) = order) (hDistinct : order.Nodup)
    (hNamed : ∀ name ∈ order, name ∈ names)
    (hMembers : Tidy (room + 1) (.object members))
    (hFit : ∀ field ∈ fields, Fit nullable room field)
    (hExtra : othersAndNulls names nullable members = extra) :
    Recorded names nullable fields extra ∧
      Tidy (room + 1) (ofNullKeeping fields extra) := by
  obtain ⟨hAscending, hTidy⟩ := tidy_object.mp hMembers
  have hRecorded : Recorded names nullable fields extra := by
    subst hExtra
    refine recorded_beside (hOrder ▸ hDistinct) ?_
      (fun field hField => (hFit field hField).filled)
      hAscending
    intro field hField
    exact hNamed _ (hOrder ▸ List.mem_map_of_mem hField)
  refine ⟨hRecorded,
    hRecorded.tidy (fun field hField => (hFit field hField).tidy) ?_⟩
  intro member hMember
  rw [← hExtra] at hMember
  exact hTidy member (mem_othersAndNulls.mp hMember).1

/-- No null is shadowed where none was given for a field that has a value. -/
theorem unshadowed_eq_self (hNames : ∀ field ∈ fields, field.1 ∈ names)
    (hAscending : members.Ascending)
    (hHeld : ∀ field ∈ fields, Held nullable room members field) :
    unshadowed fields (othersAndNulls names nullable members) =
      othersAndNulls names nullable members := by
  refine Members.eq_of_mem_iff
    (Members.ascending_filter _ (Members.ascending_filter _ hAscending))
    (Members.ascending_filter _ hAscending) fun member => ?_
  rw [mem_unshadowed]
  refine ⟨And.left, fun hMember => ⟨hMember, fun hNull v hField => ?_⟩⟩
  obtain ⟨hThere, hApart⟩ := mem_othersAndNulls.mp hMember
  have hNullable := (hApart (hNames _ hField)).1
  have hLookup := Members.lookup_of_mem hAscending hThere
  rw [hNull] at hLookup
  exact (hHeld _ hField).unparked hNullable (Option.some_ne_none v) hLookup

/-- A record whose fields were all taken from tidy members: it is tidy, and its
members are read as the same fields and the same other members. -/
theorem rewritten_record (order : List String)
    (hOrder : fields.map (·.1) = order) (hDistinct : order.Nodup)
    (hNamed : ∀ name ∈ order, name ∈ names)
    (hMembers : Tidy (room + 1) (.object members)) {P : Members Json → Prop}
    (hFields : AllHeld nullable room members fields P)
    (hExtra : othersAndNulls names nullable members = extra) :
    Tidy (room + 1) (ofNullKeeping fields extra) ∧ P (written fields extra) ∧
      othersAndNulls names nullable (written fields extra) = extra := by
  obtain ⟨hRecorded, hTidy⟩ :=
    recorded_of_members order hOrder hDistinct hNamed hMembers
      (fun field hField => (hFields.held field hField).toFit) hExtra
  refine ⟨hTidy, hFields.again hRecorded.tells, ?_⟩
  rw [hRecorded.othersAndNulls_written, ← hExtra,
    unshadowed_eq_self hRecorded.named (tidy_object.mp hMembers).1 hFields.held]

/-- A record that keeps no nulls shadows none. -/
theorem Recorded.unshadowed_eq_self (h : Recorded names [] fields extra) :
    unshadowed fields extra = extra := by
  refine Members.eq_of_mem_iff (Members.ascending_filter _ h.ascending)
    h.ascending
    fun member => ?_
  rw [mem_unshadowed]
  refine ⟨And.left, fun hMember => ⟨hMember, fun _ v hField => ?_⟩⟩
  exact absurd (h.apart member hMember (h.named _ hField)).1 List.not_mem_nil

/-- A record that keeps other members but no nulls: its members tell of its
fields, and the other members are found again, in order. -/
theorem tells_open (fields : List (String × Option Json)) (order : List String)
    (hOrder : fields.map (·.1) = order) (hDistinct : order.Nodup)
    (hApart : ∀ member ∈ extra, member.1 ∉ order) :
    (∀ field ∈ fields, Tells (Members.ofList (present fields ++ extra)) field) ∧
      others order (Members.ofList (present fields ++ extra)) =
        Members.ofList extra := by
  have hRecorded : Recorded order [] fields (Members.ofList extra) := by
    constructor
    · rw [hOrder]
      exact hDistinct
    · intro field hField
      exact hOrder ▸ List.mem_map_of_mem hField
    · exact fun _ _ hName => absurd hName List.not_mem_nil
    · exact Members.ascending_ofList extra
    · intro member hMember hName
      exact absurd hName (hApart member (Members.mem_ofList hMember))
  have hSame := hRecorded.unshadowed_eq_self
  have hWritten : written fields (Members.ofList extra) =
      Members.ofList (present fields ++ extra) := by
    rw [written, hSame, Members.ofList_append_ofList]
  have hOthers := hRecorded.othersAndNulls_written
  rw [hWritten, hSame] at hOthers
  rw [← hWritten, others_eq_othersAndNulls, hWritten]
  exact ⟨hWritten ▸ hRecorded.tells, hOthers⟩

/-- The same for a record whose fields were all taken from tidy members. -/
theorem rewritten_open (order : List String) (hOrder : fields.map (·.1) = order)
    (hDistinct : order.Nodup) (hMembers : Tidy (room + 1) (.object members))
    {P : Members Json → Prop} (hFields : AllHeld [] room members fields P)
    (hExtra : others order members = extra) :
    Tidy (room + 1) (ofOpen fields extra) ∧
      P (Members.ofList (present fields ++ extra)) ∧
      others order (Members.ofList (present fields ++ extra)) = extra := by
  obtain ⟨hAscending, hTidy⟩ := tidy_object.mp hMembers
  rw [others_eq_othersAndNulls] at hExtra
  have hApart : ∀ member ∈ extra, member.1 ∉ order := by
    intro member hMember hName
    rw [← hExtra] at hMember
    exact absurd ((mem_othersAndNulls.mp hMember).2 hName).1 List.not_mem_nil
  have hOrdered : Members.ofList extra = extra := by
    rw [← hExtra]
    exact Members.ofList_of_ascending (Members.ascending_filter _ hAscending)
  obtain ⟨hTells, hOthers⟩ := tells_open fields order hOrder hDistinct hApart
  refine ⟨tidy_object.mpr ⟨Members.ascending_ofList _,
    fun member hMember => ?_⟩,
    hFields.again hTells, hOthers.trans hOrdered⟩
  rcases List.mem_append.mp (Members.mem_ofList hMember) with hField | hOther
  · exact (hFields.held _ (mem_present.mp hField)).tidy _ rfl
  · rw [← hExtra] at hOther
    exact hTidy member (mem_othersAndNulls.mp hOther).1

end Records

end SealedGraph.Json
