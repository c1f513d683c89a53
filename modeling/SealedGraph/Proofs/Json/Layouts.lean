import SealedGraph.Proofs.Json.Tidy

/-!
# Layouts

A value is laid out as a text in many ways: blanks may stand between its tokens
and around them.  The layout does not matter when the text is read, as a value
or as a closed record, of which only the named members are looked at.  And
whatever the shape under which a text is read, what is read is in normal form.

A layout is at least as long as what stands in it, so that a text that fits
into memory says how many things it can hold.

## Main results

* `parse?_of_laid`, `parseAs?_closed_of_laid`: how layouts are read.
* `lookup_picked`: what is found in a closed record.
* `normalize_of_parseAs?`: what is read under a shape is in normal form.
* `length_items_le`: how many items an array can have in a text.
-/

namespace SealedGraph.Json

/-- Texts of a value: its tokens, with blanks between them and around them. -/
def Laid (v : Json) (text : String) : Prop :=
  ∃ b cs b', Blank b ∧ Spells v cs ∧ Blank b' ∧ text.toList = b ++ (cs ++ b')

theorem laid_line {v : Json} {cs : List Char} (h : Spells v cs) :
    Laid v (String.ofList cs ++ "\n") := by
  refine ⟨[], cs, ['\n'], blank_nil, h, ?_, ?_⟩
  · exact blank_newLine 0
  · rw [String.toList_append, String.toList_ofList]
    rfl

/-- A tidy value is read from its texts, but for the rounding of its numbers. -/
theorem parse?_of_laid {v : Json} (hTidy : Tidy maxDepth v) {text : String}
    (h : Laid v text) : parse? text = v.reread? := by
  obtain ⟨b, cs, b', hb, hSpells, hb', hText⟩ := h
  rw [parse?_of_spells hSpells hb hb' hText, if_pos hTidy.depth_le,
    map_normalize_reread? hTidy.normal]

/-! ## Layouts of closed records -/

section Closed

variable {names : List String} {members : Members Json} {room : Nat}

/-- The fields of a closed record, all of which are taken as they are. -/
def plainFields (names : List String) : List (String × Shape) :=
  names.map fun name => (name, .any)

/-- The members of some names. -/
def picked (names : List String) (members : Members Json) : Members Json :=
  Members.ofList (names.filterMap fun name =>
    (members.lookup name).map (name, ·))

theorem lookup_picked (hDistinct : names.Nodup) {name : String}
    (hName : name ∈ names) :
    (picked names members).lookup name = members.lookup name := by
  have hNames : ((names.filterMap fun name =>
      (members.lookup name).map (name, ·)).map (·.1)).Nodup := by
    refine List.pairwise_map.mpr (List.Pairwise.filterMap _ ?_ hDistinct)
    intro a b hNe x hx y hy
    obtain ⟨_, _, rfl⟩ := Option.map_eq_some_iff.mp hx
    obtain ⟨_, _, rfl⟩ := Option.map_eq_some_iff.mp hy
    exact hNe
  refine Option.ext fun value => ?_
  rw [picked, Members.lookup_eq_some_iff (Members.ascending_ofList _),
    Members.mem_ofList_iff hNames, List.mem_filterMap]
  constructor
  · rintro ⟨other, _, hOther⟩
    obtain ⟨_, hLookup, hPair⟩ := Option.map_eq_some_iff.mp hOther
    cases hPair
    exact hLookup
  · intro hLookup
    exact ⟨name, hName, by rw [hLookup]; rfl⟩

private theorem named?_withinMembers :
    Source.named? (withinMembers members room) =
      some (members.map fun member => (member.1, within member.2 room)) := by
  induction members with
  | nil => rfl
  | cons member rest ih =>
      rw [withinMembers, Source.named?, ih]
      rfl

private theorem length_le_one (name : String) {named : List (String × Source)}
    (hPairs : named.Pairwise fun a b => a.1 ≠ b.1)
    (hSame : ∀ member ∈ named, member.1 = name) :
    named.length ≤ 1 := by
  match named with
  | [] => exact Nat.zero_le 1
  | [_] => exact Nat.le_refl 1
  | first :: second :: rest =>
      have hNe :=
        (List.pairwise_cons.mp hPairs).1 second (List.mem_cons_self ..)
      exact absurd ((hSame first (by simp)).trans (hSame second (by simp)).symm)
        hNe

private theorem distinct_of_nodup {named : List (String × Source)}
    (h : (named.map (·.1)).Nodup) :
    Source.distinct names named = true := by
  refine List.all_eq_true.mpr fun name _ =>
    decide_eq_true (length_le_one name ?_ ?_)
  · exact List.Pairwise.sublist List.filter_sublist (List.pairwise_map.mp h)
  · intro member hMember
    exact of_decide_eq_true (List.mem_filter.mp hMember).2

private theorem lookup_within (name : String) :
    (members.map fun member => (member.1, within member.2 room)).lookup name =
      (members.lookup name).map (within · room) := by
  induction members with
  | nil => rfl
  | cons member rest ih =>
      obtain ⟨other, value⟩ := member
      rw [List.map_cons, List.lookup_cons, List.lookup_cons]
      cases name == other with
      | true => rfl
      | false => exact ih

private theorem readFields?_plain
    (hMembers : ∀ member ∈ members, Tidy room member.2)
    (hNumbers : ∀ member ∈ members, ReadsBack member.2) :
    Shape.readFields? (plainFields names)
        (members.map fun member => (member.1, within member.2 room)) =
      some (names.filterMap fun name =>
        (members.lookup name).map (name, ·)) := by
  induction names with
  | nil => rfl
  | cons name names ih =>
      rw [plainFields, List.map_cons, Shape.readFields?, lookup_within,
        List.filterMap_cons]
      cases hLookup : members.lookup name with
      | none => exact ih
      | some value =>
          have hMember := Members.mem_of_lookup hLookup
          have hValue := hMembers _ hMember
          have hSame := reread?_eq_self_iff.mpr (hNumbers _ hMember)
          have hRead : Shape.read? .any (within value room) = some value := by
            show (within value room).value? = _
            rw [value?_within, if_pos hValue.depth_le,
              map_normalize_reread? hValue.normal, hSame]
          simp only [Option.map_some, hRead, Option.bind_eq_bind,
            Option.bind_some]
          rw [show Shape.readFields? (List.map _ names) _ = _ from ih]
          rfl

/-- Of a closed record only the named members are read, wherever they stand. -/
theorem parseAs?_closed_of_laid (names : List String)
    (hTidy : Tidy maxDepth (.object members))
    (hNumbers : ReadsBack (.object members)) {text : String}
    (h : Laid (.object members) text) :
    parseAs? (.closed (plainFields names)) text =
      some (.object (picked names members)) := by
  obtain ⟨b, cs, b', hb, hSpells, hb', hText⟩ := h
  obtain ⟨hAscending, hMembers⟩ : members.Ascending ∧ ∀ member ∈ members,
    Tidy 126 member.2 :=
    tidy_object.mp hTidy
  have hSource :
      within (.object members) maxDepth = .object (withinMembers members 126) :=
    rfl
  have hNames :
      ((members.map fun member => (member.1, within member.2 126)).map
        (·.1)).Nodup := by
    rw [List.map_map]
    exact Members.nodup_names hAscending
  rw [parseAs?, sourceParse?_of_spells hSpells hb hb' maxDepth hText,
    Option.bind_some, hSource, Shape.read?, named?_withinMembers]
  simp only [Option.bind_eq_bind, Option.bind_some,
    distinct_of_nodup hNames, if_true,
    readFields?_plain hMembers (readsBack_object.mp hNumbers), Option.map_some]
  rfl

end Closed

/-! ## What is read is in normal form -/

mutual
theorem normalize_of_value? :
    ∀ {source : Source} {v : Json}, source.value? = some v →
    v.normalize = v
  | .null, _, h => by cases h; rfl
  | .bool _, _, h => by cases h; rfl
  | .number _, _, h => by cases h; rfl
  | .string _, _, h => by cases h; rfl
  | .array items, _, h => by
      obtain ⟨values, hValues, rfl⟩ := Option.map_eq_some_iff.mp h
      rw [normalize,
        normalizeItems_eq_self.mpr (normalize_of_itemValues? hValues)]
  | .object members, _, h => by
      obtain ⟨pairs, hPairs, rfl⟩ := Option.map_eq_some_iff.mp h
      exact normalize_object_eq_self.mpr ⟨Members.ascending_ofList _,
        fun member hMember =>
        normalize_of_memberValues? hPairs member (Members.mem_ofList hMember)⟩
  | .hole, _, h => by cases h

theorem normalize_of_itemValues? : ∀ {items : List Source} {values : List Json},
    Source.itemValues? items = some values → ∀ value ∈ values,
      value.normalize = value
  | [], _, h => by
      cases h
      exact fun _ hMem => absurd hMem List.not_mem_nil
  | item :: items, _, h => by
      simp only [Source.itemValues?, Option.bind_eq_bind,
        Option.bind_eq_some_iff] at h
      obtain ⟨value, hValue, values, hValues, h⟩ := h
      cases h
      exact List.forall_mem_cons.mpr
        ⟨normalize_of_value? hValue, normalize_of_itemValues? hValues⟩

theorem normalize_of_memberValues? : ∀ {members : List (Option String × Source)}
    {pairs : List (String × Json)}, Source.memberValues? members = some pairs →
      ∀ pair ∈ pairs, pair.2.normalize = pair.2
  | [], _, h => by
      cases h
      exact fun _ hMem => absurd hMem List.not_mem_nil
  | (name?, item) :: members, _, h => by
      simp only [Source.memberValues?, Option.bind_eq_bind,
        Option.bind_eq_some_iff] at h
      obtain ⟨name, _, value, hValue, pairs, hPairs, h⟩ := h
      cases h
      exact List.forall_mem_cons.mpr
        ⟨normalize_of_value? hValue, normalize_of_memberValues? hPairs⟩
end

/-- What is read item by item has the properties of what is read from an
item. -/
private theorem forall_of_mapM {read : Source → Option Json} {P : Json → Prop}
    (hRead : ∀ {source v}, read source = some v → P v) {items : List Source}
    {values : List Json} (h : items.mapM read = some values) :
    ∀ value ∈ values, P value := by
  induction items generalizing values with
  | nil =>
      cases h
      exact fun _ hMem => absurd hMem List.not_mem_nil
  | cons item items ih =>
      simp only [List.mapM_cons, Option.bind_eq_bind, Option.bind_eq_some_iff]
        at h
      obtain ⟨value, hValue, rest, hRest, h⟩ := h
      cases h
      exact List.forall_mem_cons.mpr ⟨hRead hValue, ih hRest⟩

/-- A table of normal values is normal. -/
private theorem normalize_table {pairs : List (String × Json)}
    (h : ∀ pair ∈ pairs, pair.2.normalize = pair.2) :
    (object (Members.ofList pairs)).normalize =
      .object (Members.ofList pairs) :=
  normalize_object_eq_self.mpr
    ⟨Members.ascending_ofList _,
      fun member hMember => h member (Members.mem_ofList hMember)⟩

mutual
theorem normalize_of_read? : ∀ (shape : Shape) {source : Source} {v : Json},
    shape.read? source = some v → v.normalize = v
  | .any, _, _, h => normalize_of_value? h
  | .single, source, _, h => by
      cases source with
      | object members =>
          match members with
          | [] => cases h
          | [member] =>
              have hValue : (Source.object [member]).value? = some _ := h
              exact normalize_of_value? hValue
          | _ :: _ :: _ => cases h
      | _ => exact normalize_of_value? h
  | .list item, source, _, h => by
      cases source with
      | array items =>
          obtain ⟨values, hValues, rfl⟩ := Option.map_eq_some_iff.mp h
          have hItems := forall_of_mapM (normalize_of_read? item) hValues
          rw [normalize, normalizeItems_eq_self.mpr hItems]
      | _ => exact normalize_of_value? h
  | .closed fields, source, _, h => by
      cases source with
      | object members =>
          simp only [Shape.read?, Option.bind_eq_bind, Option.bind_eq_some_iff]
            at h
          obtain ⟨named, _, h⟩ := h
          split at h
          · obtain ⟨known, hKnown, rfl⟩ := Option.map_eq_some_iff.mp h
            exact normalize_table (normalize_of_readFields? fields hKnown)
          · cases h
      | array items =>
          rw [Shape.read?] at h
          split at h
          · obtain ⟨values, hValues, rfl⟩ := Option.map_eq_some_iff.mp h
            rw [normalize,
              normalizeItems_eq_self.mpr
                (normalize_of_readItems? fields hValues)]
          · cases h
      | _ => exact normalize_of_value? h
  | .opened fields, source, _, h => by
      cases source with
      | object members =>
          simp only [Shape.read?, Option.bind_eq_bind, Option.bind_eq_some_iff]
            at h
          obtain ⟨named, _, h⟩ := h
          split at h
          · simp only [Option.bind_eq_some_iff] at h
            obtain ⟨known, hKnown, others, hOthers, h⟩ := h
            cases h
            exact normalize_table (List.forall_mem_append.mpr
              ⟨normalize_of_readFields? fields hKnown,
                normalize_of_memberValues? hOthers⟩)
          · cases h
      | _ => exact normalize_of_value? h

theorem normalize_of_readFields? : ∀ (fields : List (String × Shape))
    {named : List (String × Source)} {pairs : List (String × Json)},
    Shape.readFields? fields named = some pairs → ∀ pair ∈ pairs,
      pair.2.normalize = pair.2
  | [], _, _, h => by
      cases h
      exact fun _ hMem => absurd hMem List.not_mem_nil
  | (name, shape) :: fields, named, _, h => by
      rw [Shape.readFields?] at h
      split at h
      · exact normalize_of_readFields? fields h
      · simp only [Option.bind_eq_bind, Option.bind_eq_some_iff] at h
        obtain ⟨value, hValue, pairs, hPairs, h⟩ := h
        cases h
        exact List.forall_mem_cons.mpr
          ⟨normalize_of_read? shape hValue,
            normalize_of_readFields? fields hPairs⟩

theorem normalize_of_readItems? :
    ∀ (fields : List (String × Shape)) {items : List Source}
    {values : List Json}, Shape.readItems? fields items = some values →
      ∀ value ∈ values, value.normalize = value
  | [], _, _, h => by
      cases h
      exact fun _ hMem => absurd hMem List.not_mem_nil
  | (_, shape) :: fields, [], _, h => by
      cases h
      exact fun _ hMem => absurd hMem List.not_mem_nil
  | (_, shape) :: fields, item :: items, _, h => by
      simp only [Shape.readItems?, Option.bind_eq_bind, Option.bind_eq_some_iff]
        at h
      obtain ⟨value, hValue, values, hValues, h⟩ := h
      cases h
      exact List.forall_mem_cons.mpr
        ⟨normalize_of_read? shape hValue,
          normalize_of_readItems? fields hValues⟩
end

theorem normalize_of_parseAs? {shape : Shape} {text : String} {v : Json}
    (h : parseAs? shape text = some v) : v.normalize = v := by
  obtain ⟨source, _, hValue⟩ := Option.bind_eq_some_iff.mp h
  exact normalize_of_read? shape hValue

/-! ## Lengths -/

/-- The text of an object is no shorter than that of any of its values. -/
theorem exists_spells_of_mem_members :
    ∀ {members : List (String × Json)} {cs : List Char},
    SpellsMembers members cs → ∀ member ∈ members, ∃ ds, Spells member.2 ds ∧
      ds.length ≤ cs.length
  | [], _, _, _, h => absurd h List.not_mem_nil
  | (_, value) :: rest, _,
      ⟨_, _, _, _, first, others, _, _, _, _, hFirst, hOthers, hText⟩, member,
      h => by
      subst hText
      simp only [List.length_append, List.length_cons]
      rcases List.mem_cons.mp h with rfl | h
      · exact ⟨first, hFirst, by omega⟩
      · obtain ⟨ds, hds, hLength⟩ :=
          exists_spells_of_mem_members hOthers member h
        exact ⟨ds, hds, by omega⟩

theorem exists_spells_of_mem {members : List (String × Json)} {cs : List Char}
    (hText : Spells (.object members) cs) {member : String × Json}
    (h : member ∈ members) :
    ∃ ds, Spells member.2 ds ∧ ds.length ≤ cs.length := by
  cases members with
  | nil => exact absurd h List.not_mem_nil
  | cons first rest =>
      obtain ⟨_, _, _, ds, others, _, _, _, hFirst, hOthers, hText⟩ := hText
      subst hText
      simp only [List.length_append, List.length_cons]
      rcases List.mem_cons.mp h with rfl | h
      · exact ⟨ds, hFirst, by omega⟩
      · obtain ⟨ds, hds, hLength⟩ :=
          exists_spells_of_mem_members hOthers member h
        exact ⟨ds, hds, by omega⟩

section Items

variable {least : Nat} {items : List Json} {cs : List Char}

private theorem length_others_le
    (hItems : ∀ item ∈ items, ∀ ds, Spells item ds → least ≤ ds.length)
    (h : SpellsItems items cs) : least * items.length ≤ cs.length := by
  induction items generalizing cs with
  | nil => exact Nat.zero_le _
  | cons item items ih =>
      obtain ⟨_, _, first, others, _, _, hFirst, hOthers, rfl⟩ := h
      obtain ⟨hItem, hItems⟩ := List.forall_mem_cons.mp hItems
      have hLeast := hItem first hFirst
      have hRest := ih hItems hOthers
      simp only [List.length_append, List.length_cons, Nat.mul_add]
      omega

/-- If the texts of all items have some least length, an array is as many times
as long. -/
theorem length_items_le
    (hItems : ∀ item ∈ items, ∀ ds, Spells item ds → least ≤ ds.length)
    (h : Spells (.array items) cs) : least * items.length ≤ cs.length := by
  cases items with
  | nil => exact Nat.zero_le _
  | cons item items =>
      obtain ⟨_, first, others, _, hFirst, hOthers, rfl⟩ := h
      obtain ⟨hItem, hItems⟩ := List.forall_mem_cons.mp hItems
      have hLeast := hItem first hFirst
      have hRest := length_others_le hItems hOthers
      simp only [List.length_append, List.length_cons, Nat.mul_add]
      omega

end Items

theorem renderChar_ne_nil (c : Char) : renderChar c ≠ [] := by
  unfold renderChar
  repeat' split
  all_goals exact List.cons_ne_nil _ _

/-- Between its quotes, a string takes up a character for each of its own, at
least. -/
theorem length_le_renderString (text : String) :
    text.length ≤ (renderString text).length := by
  have hChars :
      ∀ cs : List Char, cs.length ≤ (cs.flatMap renderChar).length := by
    intro cs
    induction cs with
    | nil => exact Nat.le_refl 0
    | cons c cs ih =>
        have hFirst := List.length_pos_iff.mpr (renderChar_ne_nil c)
        rw [List.flatMap_cons, List.length_append, List.length_cons]
        omega
  have hText := hChars text.toList
  rw [String.length_toList] at hText
  rw [renderString, List.length_cons, List.length_append]
  omega

end SealedGraph.Json
