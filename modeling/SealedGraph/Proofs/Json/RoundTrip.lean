import SealedGraph.Proofs.Json.Reading

/-!
# Texts that the program writes

The canonical and the indented text of a value are read back as its normal
form with its numbers read again, unless the value is nested too deeply; then
they are refused.

## Main results

* `parse?_of_spells`: how a text of a value is taken as a value.
* `normalize_normalize`: a normal form stays as it is.
* `normalize_of_reread?`: so does one whose numbers are read again.
* `parseBytes?_canonicalBytes`: what canonical bytes are read as.
-/

namespace SealedGraph.Json

/-! ## Written texts -/

mutual
theorem spells_render : ∀ v : Json, Spells v (render v)
  | .null => rfl
  | .bool true => rfl
  | .bool false => rfl
  | .number _ => rfl
  | .string _ => rfl
  | .array [] => ⟨[], blank_nil, rfl⟩
  | .array (item :: rest) =>
      ⟨[], render item, renderItems rest, blank_nil, spells_render item,
        spells_renderItems rest, rfl⟩
  | .object [] => ⟨[], blank_nil, rfl⟩
  | .object ((_, value) :: rest) =>
      ⟨[], [], [], render value, renderMembers rest, blank_nil, blank_nil,
        blank_nil, spells_render value, spells_renderMembers rest, rfl⟩

theorem spells_renderItems :
    ∀ items : List Json, SpellsItems items (renderItems items)
  | [] => ⟨[], blank_nil, rfl⟩
  | item :: rest =>
      ⟨[], [], render item, renderItems rest, blank_nil, blank_nil,
        spells_render item, spells_renderItems rest, rfl⟩

theorem spells_renderMembers : ∀ members : List (String × Json),
    SpellsMembers members (renderMembers members)
  | [] => ⟨[], blank_nil, rfl⟩
  | (_, value) :: rest =>
      ⟨[], [], [], [], render value, renderMembers rest, blank_nil, blank_nil,
        blank_nil, blank_nil, spells_render value,
        spells_renderMembers rest, rfl⟩
end

theorem blank_newLine (level : Nat) : Blank (newLine level) := by
  intro c hc
  rcases List.mem_cons.mp hc with rfl | hc
  · rfl
  · rw [(List.mem_replicate.mp hc).2]
    rfl

theorem blank_space : Blank [' '] := by
  intro c hc
  rw [List.mem_singleton.mp hc]
  rfl

mutual
theorem spells_renderIndented :
    ∀ (v : Json) (level : Nat), Spells v (renderIndented level v)
  | .null, _ => rfl
  | .bool true, _ => rfl
  | .bool false, _ => rfl
  | .number _, _ => rfl
  | .string _, _ => rfl
  | .array [], _ => ⟨[], blank_nil, rfl⟩
  | .array (item :: rest), level =>
      ⟨newLine (level + 1), renderIndented (level + 1) item,
        indentedItems level rest, blank_newLine _, spells_renderIndented item _,
        spells_indentedItems rest level, rfl⟩
  | .object [], _ => ⟨[], blank_nil, rfl⟩
  | .object ((_, value) :: rest), level =>
      ⟨newLine (level + 1), [], [' '], renderIndented (level + 1) value,
        indentedMembers level rest, blank_newLine _, blank_nil, blank_space,
        spells_renderIndented value _, spells_indentedMembers rest level, rfl⟩

theorem spells_indentedItems : ∀ (items : List Json) (level : Nat),
    SpellsItems items (indentedItems level items)
  | [], level => ⟨newLine level, blank_newLine _, rfl⟩
  | item :: rest, level =>
      ⟨[], newLine (level + 1), renderIndented (level + 1) item,
        indentedItems level rest, blank_nil, blank_newLine _,
        spells_renderIndented item _, spells_indentedItems rest level, rfl⟩

theorem spells_indentedMembers :
    ∀ (members : List (String × Json)) (level : Nat),
    SpellsMembers members (indentedMembers level members)
  | [], level => ⟨newLine level, blank_newLine _, rfl⟩
  | (_, value) :: rest, level =>
      ⟨[], newLine (level + 1), [], [' '], renderIndented (level + 1) value,
        indentedMembers level rest, blank_nil, blank_newLine _, blank_nil,
        blank_space, spells_renderIndented value _,
        spells_indentedMembers rest level, rfl⟩
end

/-! ## Normal forms -/

theorem normalizeItems_eq_map (items : List Json) :
    normalizeItems items = items.map normalize := by
  induction items with
  | nil => rfl
  | cons item rest ih => rw [normalizeItems, ih, List.map_cons]

theorem normalizeMembers_eq_map (members : Members Json) :
    normalizeMembers members = members.map fun member =>
      (member.1, normalize member.2) := by
  induction members with
  | nil => rfl
  | cons member rest ih => rw [normalizeMembers, ih, List.map_cons]

theorem names_normalizeMembers (members : Members Json) :
    (normalizeMembers members).map (·.1) = members.map (·.1) := by
  induction members with
  | nil => rfl
  | cons member rest ih => exact congrArg (member.1 :: ·) ih

theorem normalizeMembers_of_fixed : ∀ {members : List (String × Json)},
    (∀ member ∈ members, normalize member.2 = member.2) →
    normalizeMembers members = members
  | [], _ => rfl
  | (name, value) :: rest, h => by
      have hValue : normalize value = value :=
        h (name, value) (List.mem_cons_self ..)
      rw [normalizeMembers, hValue,
        normalizeMembers_of_fixed fun member hMember =>
          h member (List.mem_cons_of_mem _ hMember)]

mutual
theorem normalize_normalize : ∀ v : Json, v.normalize.normalize = v.normalize
  | .null => rfl
  | .bool _ => rfl
  | .number _ => rfl
  | .string _ => rfl
  | .array items => by
      rw [normalize, normalize, normalizeItems_normalizeItems items]
  | .object members => by
      have hFixed :
          normalizeMembers (Members.ofList (normalizeMembers members)) =
            Members.ofList (normalizeMembers members) :=
        normalizeMembers_of_fixed fun member hMember =>
          normalize_of_mem_normalizeMembers members (Members.mem_ofList hMember)
      rw [normalize, normalize, hFixed,
        Members.ofList_of_ascending (Members.ascending_ofList _)]

theorem normalizeItems_normalizeItems : ∀ items : List Json,
    normalizeItems (normalizeItems items) = normalizeItems items
  | [] => rfl
  | item :: rest => by
      rw [normalizeItems, normalizeItems, normalize_normalize item,
        normalizeItems_normalizeItems rest]

theorem normalize_of_mem_normalizeMembers : ∀ (members : List (String × Json))
    {member : String × Json}, member ∈ normalizeMembers members →
      normalize member.2 = member.2
  | [], _, h => nomatch h
  | (name, value) :: rest, member, h => by
      rcases List.mem_cons.mp h with rfl | h
      · exact normalize_normalize value
      · exact normalize_of_mem_normalizeMembers rest h
end

theorem normalizeItems_eq_self {items : List Json} :
    normalizeItems items = items ↔ ∀ item ∈ items, normalize item = item := by
  induction items with
  | nil => simp [normalizeItems]
  | cons item rest ih =>
      rw [normalizeItems, List.cons.injEq, ih, List.forall_mem_cons]

theorem normalize_object_eq_self {members : Members Json} :
    normalize (.object members) = .object members ↔
      members.Ascending ∧ ∀ member ∈ members,
        normalize member.2 = member.2 := by
  rw [normalize, object.injEq]
  constructor
  · intro h
    refine ⟨h ▸ Members.ascending_ofList _, fun member hMember => ?_⟩
    rw [← h] at hMember
    exact normalize_of_mem_normalizeMembers members (Members.mem_ofList hMember)
  · rintro ⟨hAscending, hValues⟩
    rw [normalizeMembers_of_fixed hValues,
      Members.ofList_of_ascending hAscending]

mutual
/-- Reading the numbers of a normal form again leaves it a normal form. -/
theorem normalize_of_reread? : ∀ {v w : Json}, v.normalize = v →
    v.reread? = some w → w.normalize = w
  | .null, _, _, h => by cases h; rfl
  | .bool _, _, _, h => by cases h; rfl
  | .string _, _, _, h => by cases h; rfl
  | .number n, _, _, h => by
      obtain ⟨_, _, rfl⟩ := Option.map_eq_some_iff.mp h
      rfl
  | .array items, _, hNormal, h => by
      obtain ⟨others, hOthers, rfl⟩ := Option.map_eq_some_iff.mp h
      rw [normalize, array.injEq, normalizeItems_eq_self] at hNormal
      rw [normalize, normalizeItems_eq_self.mpr
        (normalize_of_rereadItems? hNormal hOthers)]
  | .object members, _, hNormal, h => by
      obtain ⟨others, hOthers, rfl⟩ := Option.map_eq_some_iff.mp h
      obtain ⟨hAscending, hValues⟩ := normalize_object_eq_self.mp hNormal
      obtain ⟨hNames, hOtherValues⟩ :=
        normalize_of_rereadMembers? hValues hOthers
      rw [Members.ascending_iff_names, ← hNames] at hAscending
      exact normalize_object_eq_self.mpr
        ⟨Members.ascending_iff_names.mpr hAscending, hOtherValues⟩

theorem normalize_of_rereadItems? : ∀ {items others : List Json},
    (∀ item ∈ items, normalize item = item) → rereadItems? items = some others →
      ∀ item ∈ others, normalize item = item
  | [], _, _, h => by cases h; exact nofun
  | item :: rest, _, hNormal, h => by
      obtain ⟨hItem, hRest⟩ := List.forall_mem_cons.mp hNormal
      simp only [rereadItems?, Option.bind_eq_bind, Option.bind_eq_some_iff]
        at h
      obtain ⟨value, hValue, values, hValues, hOthers⟩ := h
      cases hOthers
      exact List.forall_mem_cons.mpr ⟨normalize_of_reread? hItem hValue,
        normalize_of_rereadItems? hRest hValues⟩

theorem normalize_of_rereadMembers? : ∀ {members others : List (String × Json)},
    (∀ member ∈ members, normalize member.2 = member.2) →
    rereadMembers? members = some others →
    others.map (·.1) = members.map (·.1) ∧
      ∀ member ∈ others, normalize member.2 = member.2
  | [], _, _, h => by cases h; exact ⟨rfl, nofun⟩
  | (name, item) :: rest, _, hNormal, h => by
      obtain ⟨hItem, hRest⟩ := List.forall_mem_cons.mp hNormal
      simp only [rereadMembers?, Option.bind_eq_bind, Option.bind_eq_some_iff]
        at h
      obtain ⟨value, hValue, values, hValues, hOthers⟩ := h
      cases hOthers
      obtain ⟨hNames, hOtherValues⟩ := normalize_of_rereadMembers? hRest hValues
      exact ⟨congrArg (name :: ·) hNames, List.forall_mem_cons.mpr
        ⟨normalize_of_reread? hItem hValue, hOtherValues⟩⟩
end

theorem map_normalize_reread? {v : Json} (hNormal : v.normalize = v) :
    v.reread?.map normalize = v.reread? := by
  cases h : v.reread? with
  | none => rfl
  | some w => exact congrArg some (normalize_of_reread? hNormal h)

theorem eq_number_of_normalize {v : Json} {n : Number}
    (h : v.normalize = .number n) :
    v = .number n := by
  cases v with
  | number _ => exact h
  | _ => exact Json.noConfusion h

/-! ## Whole texts -/

theorem skipBlanks_eq_nil {b : List Char} (hBlank : Blank b) :
    skipBlanks b = [] :=
  List.dropWhile_eq_nil_iff.mpr fun c hc => hBlank c hc

/-- Blanks may stand before and after a value. -/
theorem sourceParse?_of_spells {v : Json} {cs b b' : List Char}
    (h : Spells v cs) (hb : Blank b) (hb' : Blank b') (room : Nat)
    {text : String} (hText : text.toList = b ++ (cs ++ b')) :
    Source.parse? room text = some (within v room) := by
  have hRead := reads_of_spells v h (2 * text.toList.length + 2) room b b'
    (by rw [hText]; simp only [List.length_append]; omega) hb fun _ =>
      ends_of_blank hb'
  rw [← hText] at hRead
  simp only [Source.parse?, hRead, skipBlanks_eq_nil hb',
    List.isEmpty_nil, if_true]

theorem parse?_of_spells {v : Json} {cs b b' : List Char} (h : Spells v cs)
    (hb : Blank b) (hb' : Blank b') {text : String}
    (hText : text.toList = b ++ (cs ++ b')) : parse? text =
      if v.depth ≤ maxDepth then v.reread?.map normalize else none := by
  rw [parse?, parseAs?, sourceParse?_of_spells h hb hb' maxDepth hText,
    ← value?_within]
  rfl

theorem parse?_canonicalText (v : Json) : parse? v.canonicalText =
    if v.normalize.depth ≤ maxDepth then v.normalize.reread? else none := by
  have hText : v.canonicalText.toList = [] ++ (render v.normalize ++ []) := by
    simp [canonicalText]
  rw [parse?_of_spells (spells_render v.normalize) blank_nil blank_nil hText,
    map_normalize_reread? (normalize_normalize v)]

theorem parse?_indentedText (v : Json) : parse? v.indentedText =
    if v.normalize.depth ≤ maxDepth then v.normalize.reread? else none := by
  have hText : v.indentedText.toList =
      [] ++ (renderIndented 0 v.normalize ++ []) := by
    simp [indentedText]
  rw [parse?_of_spells (spells_renderIndented v.normalize 0) blank_nil blank_nil
    hText, map_normalize_reread? (normalize_normalize v)]

theorem parseBytes?_canonicalBytes (v : Json) : parseBytes? v.canonicalBytes =
    if v.normalize.depth ≤ maxDepth then v.normalize.reread? else none := by
  rw [parseBytes?, canonicalBytes, Bytes.toText?_ofText, Option.bind_some,
    parse?_canonicalText]

end SealedGraph.Json
