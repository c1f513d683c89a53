import SealedGraph.Proofs.Json.RoundTrip

/-!
# Tidy values

A value is tidy if it is in normal form and not nested too deeply.  Every
value that a text is read as is tidy for the limit of the reader, and the
canonical text of a tidy value is read back as that value with its numbers
read again.

## Main results

* `tidy_array`, `tidy_object`: containers are tidy if their contents are.
* `tidy_of_parse?`: what is read is tidy.
* `parse?_canonicalText_of_tidy`, `parse?_indentedText_of_tidy`: what is tidy is
  read back, but for the rounding of its numbers.
-/

namespace SealedGraph.Json

/-- A value in normal form with at most `room` containers inside each other. -/
structure Tidy (room : Nat) (v : Json) : Prop where
  normal : v.normalize = v
  depth_le : v.depth ≤ room

namespace Tidy

theorem mono {room more : Nat} {v : Json} (h : Tidy room v)
    (hRoom : room ≤ more) : Tidy more v :=
  ⟨h.normal, Nat.le_trans h.depth_le hRoom⟩

theorem null (room : Nat) : Tidy room .null := ⟨rfl, Nat.zero_le _⟩

theorem bool (room : Nat) (value : Bool) : Tidy room (.bool value) :=
  ⟨rfl, Nat.zero_le _⟩

theorem number (room : Nat) (value : Number) : Tidy room (.number value) :=
  ⟨rfl, Nat.zero_le _⟩

theorem string (room : Nat) (text : String) : Tidy room (.string text) :=
  ⟨rfl, Nat.zero_le _⟩

end Tidy

/-! ## Containers -/

theorem depthItems_le {items : List Json} {room : Nat} :
    depthItems items ≤ room ↔ ∀ item ∈ items, depth item ≤ room := by
  induction items with
  | nil => simp [depthItems]
  | cons item rest ih => rw [depthItems, Nat.max_le, ih, List.forall_mem_cons]

theorem depthMembers_le {members : Members Json} {room : Nat} :
    depthMembers members ≤ room ↔ ∀ member ∈ members,
      depth member.2 ≤ room := by
  induction members with
  | nil => simp [depthMembers]
  | cons member rest ih =>
      rw [depthMembers, Nat.max_le, ih, List.forall_mem_cons]

theorem tidy_array {items : List Json} {room : Nat} :
    Tidy (room + 1) (.array items) ↔ ∀ item ∈ items, Tidy room item := by
  constructor
  · rintro ⟨hNormal, hDepth⟩ item hItem
    rw [normalize, array.injEq, normalizeItems_eq_self] at hNormal
    rw [depth, Nat.add_le_add_iff_right, depthItems_le] at hDepth
    exact ⟨hNormal item hItem, hDepth item hItem⟩
  · intro h
    constructor
    · rw [normalize, normalizeItems_eq_self.mpr fun item hItem =>
        (h item hItem).normal]
    · rw [depth, Nat.add_le_add_iff_right, depthItems_le]
      exact fun item hItem => (h item hItem).depth_le

theorem tidy_object {members : Members Json} {room : Nat} :
    Tidy (room + 1) (.object members) ↔
      members.Ascending ∧ ∀ member ∈ members, Tidy room member.2 := by
  constructor
  · rintro ⟨hNormal, hDepth⟩
    obtain ⟨hAscending, hValues⟩ := normalize_object_eq_self.mp hNormal
    rw [depth, Nat.add_le_add_iff_right, depthMembers_le] at hDepth
    exact ⟨hAscending,
      fun member hMember => ⟨hValues member hMember, hDepth member hMember⟩⟩
  · rintro ⟨hAscending, hTidy⟩
    constructor
    · exact normalize_object_eq_self.mpr
        ⟨hAscending, fun member hMember => (hTidy member hMember).normal⟩
    · rw [depth, Nat.add_le_add_iff_right, depthMembers_le]
      exact fun member hMember => (hTidy member hMember).depth_le

theorem tidy_nil {room : Nat} (hRoom : 1 ≤ room) : Tidy room (.array []) :=
  Tidy.mono ⟨rfl, Nat.le_refl 1⟩ hRoom

theorem tidy_blank {room : Nat} (hRoom : 1 ≤ room) : Tidy room (.object []) :=
  Tidy.mono ⟨rfl, Nat.le_refl 1⟩ hRoom

/-- A tidy array leaves room for one container, at least. -/
theorem Tidy.exists_room_array {items : List Json} {room : Nat}
    (h : Tidy room (.array items)) :
    ∃ inner, room = inner + 1 :=
  ⟨room - 1, by have hDepth := h.depth_le; rw [depth] at hDepth; omega⟩

theorem Tidy.exists_room_object {members : Members Json} {room : Nat}
    (h : Tidy room (.object members)) : ∃ inner, room = inner + 1 :=
  ⟨room - 1, by have hDepth := h.depth_le; rw [depth] at hDepth; omega⟩

/-! ## What is read -/

private theorem value?_of_nest {room : Nat} {source : Source} {v : Json}
    (h : (nest room source).value? = some v) :
    ∃ inner, room = inner + 1 ∧ source.value? = some v := by
  cases room with
  | zero => cases h
  | succ inner => exact ⟨inner, rfl, h⟩

private theorem tidy_of_values {items : List Source} {v : Json} {room : Nat}
    (h : (nest room (.array items)).value? = some v)
    (hItems : ∀ values, Source.itemValues? items = some values →
      ∀ value ∈ values, Tidy (room - 1) value) : Tidy room v := by
  obtain ⟨inner, rfl, h⟩ := value?_of_nest h
  obtain ⟨values, hValues, rfl⟩ := Option.map_eq_some_iff.mp h
  exact tidy_array.mpr (hItems values hValues)

private theorem tidy_of_pairs {members : List (Option String × Source)}
    {v : Json} {room : Nat}
    (h : (nest room (.object members)).value? = some v)
    (hMembers : ∀ pairs, Source.memberValues? members = some pairs →
      ∀ pair ∈ pairs, Tidy (room - 1) pair.2) : Tidy room v := by
  obtain ⟨inner, rfl, h⟩ := value?_of_nest h
  obtain ⟨pairs, hPairs, rfl⟩ := Option.map_eq_some_iff.mp h
  exact tidy_object.mpr ⟨Members.ascending_ofList pairs, fun member hMember =>
    hMembers pairs hPairs member (Members.mem_ofList hMember)⟩

/-- What holds of the values of all items holds of the first one and of the
others. -/
private theorem tidy_of_itemValues {item : Source} {items : List Source}
    {room : Nat}
    (hFirst : ∀ v, item.value? = some v → Tidy room v)
    (hOthers : ∀ values, Source.itemValues? items = some values →
      ∀ value ∈ values, Tidy room value) {values : List Json}
    (hValues : Source.itemValues? (item :: items) = some values) :
    ∀ value ∈ values, Tidy room value := by
  simp only [Source.itemValues?, Option.bind_eq_bind, Option.bind_eq_some_iff]
    at hValues
  obtain ⟨first, hValue, found, hFound, hValues⟩ := hValues
  cases hValues
  exact List.forall_mem_cons.mpr ⟨hFirst first hValue, hOthers found hFound⟩

private theorem tidy_of_memberValues {name : Option String} {item : Source}
    {members : List (Option String × Source)} {room : Nat}
    (hFirst : ∀ v, item.value? = some v → Tidy room v)
    (hOthers : ∀ pairs, Source.memberValues? members = some pairs →
      ∀ pair ∈ pairs, Tidy room pair.2) {pairs : List (String × Json)}
    (hPairs : Source.memberValues? ((name, item) :: members) = some pairs) :
    ∀ pair ∈ pairs, Tidy room pair.2 := by
  simp only [Source.memberValues?, Option.bind_eq_bind, Option.bind_eq_some_iff]
    at hPairs
  obtain ⟨_, _, first, hValue, found, hFound, hPairs⟩ := hPairs
  cases hPairs
  exact List.forall_mem_cons.mpr ⟨hFirst first hValue, hOthers found hFound⟩

private theorem tidy_of_noItems (room : Nat) :
    ∀ values, Source.itemValues? [] = some values → ∀ value ∈ values,
      Tidy room value := by
  intro values hValues value hMem
  cases hValues
  exact absurd hMem List.not_mem_nil

private theorem tidy_of_noMembers (room : Nat) :
    ∀ pairs, Source.memberValues? [] = some pairs → ∀ pair ∈ pairs,
      Tidy room pair.2 := by
  intro pairs hPairs pair hMem
  cases hPairs
  exact absurd hMem List.not_mem_nil

mutual
theorem tidy_of_readValue :
    ∀ (fuel : Nat) {room : Nat} {cs rest : List Char} {source : Source},
    readValue fuel room cs = some (source, rest) →
      ∀ v, source.value? = some v → Tidy room v
  | 0, _, _, _, _, h => by cases h
  | fuel + 1, room, cs, rest, source, h => by
      intro v hValue
      rw [readValue] at h
      split at h
      · cases h; cases hValue; exact .null room
      · cases h; cases hValue; exact .bool room true
      · cases h; cases hValue; exact .bool room false
      · obtain ⟨⟨text?, _⟩, _, hSource⟩ := Option.map_eq_some_iff.mp h
        cases hSource
        cases text? with
        | none => cases hValue
        | some text => cases hValue; exact .string room text
      · split at h
        · cases h
          exact tidy_of_values hValue (tidy_of_noItems _)
        · obtain ⟨⟨items, _⟩, hItems, hSource⟩ := Option.map_eq_some_iff.mp h
          cases hSource
          exact tidy_of_values hValue (tidy_of_readItems fuel hItems)
      · split at h
        · cases h
          exact tidy_of_pairs hValue (tidy_of_noMembers _)
        · obtain ⟨⟨members, _⟩, hMembers, hSource⟩ :=
            Option.map_eq_some_iff.mp h
          cases hSource
          exact tidy_of_pairs hValue (tidy_of_readMembers fuel hMembers)
      · obtain ⟨⟨text, _⟩, _, hSource⟩ := Option.map_eq_some_iff.mp h
        cases hSource
        cases hNumber : text.number? with
        | none => rw [hNumber] at hValue; cases hValue
        | some n => rw [hNumber] at hValue; cases hValue; exact .number room n

theorem tidy_of_readItems : ∀ (fuel : Nat) {room : Nat} {cs rest : List Char}
    {items : List Source}, readItems fuel room cs = some (items, rest) →
      ∀ values, Source.itemValues? items = some values → ∀ value ∈ values,
        Tidy room value
  | 0, _, _, _, _, h => by cases h
  | fuel + 1, room, cs, rest, items, h => by
      intro values hValues
      simp only [readItems, Option.bind_eq_bind, Option.bind_eq_some_iff] at h
      obtain ⟨⟨item, cs⟩, hItem, h⟩ := h
      have hFirst := tidy_of_readValue fuel hItem
      split at h
      · simp only [Option.bind_eq_some_iff] at h
        obtain ⟨⟨others, _⟩, hOthers, hItems⟩ := h
        cases hItems
        exact tidy_of_itemValues hFirst (tidy_of_readItems fuel hOthers) hValues
      · cases h
        exact tidy_of_itemValues hFirst (tidy_of_noItems room) hValues
      · cases h

theorem tidy_of_readMembers : ∀ (fuel : Nat) {room : Nat} {cs rest : List Char}
    {members : List (Option String × Source)},
      readMembers fuel room cs = some (members, rest) →
      ∀ pairs, Source.memberValues? members = some pairs → ∀ pair ∈ pairs,
        Tidy room pair.2
  | 0, _, _, _, _, h => by cases h
  | fuel + 1, room, cs, rest, members, h => by
      intro pairs hPairs
      rw [readMembers] at h
      split at h
      · simp only [Option.bind_eq_bind, Option.bind_eq_some_iff] at h
        obtain ⟨⟨name, cs⟩, _, h⟩ := h
        split at h
        · simp only [Option.bind_eq_some_iff] at h
          obtain ⟨⟨item, cs⟩, hItem, h⟩ := h
          have hFirst := tidy_of_readValue fuel hItem
          split at h
          · simp only [Option.bind_eq_some_iff] at h
            obtain ⟨⟨others, _⟩, hOthers, hMembers⟩ := h
            cases hMembers
            exact tidy_of_memberValues hFirst
              (tidy_of_readMembers fuel hOthers) hPairs
          · cases h
            exact tidy_of_memberValues hFirst (tidy_of_noMembers room) hPairs
          · cases h
        · cases h
      · cases h
end

/-- Values are read in normal form and no deeper than the limit. -/
theorem tidy_of_parse? {text : String} {v : Json} (h : parse? text = some v) :
    Tidy maxDepth v := by
  obtain ⟨source, hSource, hValue⟩ := Option.bind_eq_some_iff.mp h
  unfold Source.parse? at hSource
  simp only at hSource
  split at hSource
  · next found rest hRead =>
    split at hSource
    · cases hSource
      exact tidy_of_readValue _ hRead v hValue
    · cases hSource
  · cases hSource

/-! ## What is written -/

theorem parse?_canonicalText_of_tidy {v : Json} (h : Tidy maxDepth v) :
    parse? v.canonicalText = v.reread? := by
  rw [parse?_canonicalText, h.normal, if_pos h.depth_le]

theorem parse?_indentedText_of_tidy {v : Json} (h : Tidy maxDepth v) :
    parse? v.indentedText = v.reread? := by
  rw [parse?_indentedText, h.normal, if_pos h.depth_le]

end SealedGraph.Json
