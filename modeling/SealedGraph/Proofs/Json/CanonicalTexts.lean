import Mathlib.Data.List.Perm.Basic
import SealedGraph.Proofs.Json.Tidy
import SealedGraph.Proofs.Json.Unambiguous
import SealedGraph.Text.Blank

/-!
# Canonical texts

Two values have one canonical text exactly if they are the same but for the
order of the members of their objects, in which no name may stand twice.  A
value that is not nested too deeply is read back from its canonical text if its
numbers are.  There the names of every object stand in ascending order, and
white space stands in strings only.

## Main results

* `canonicalText_eq_iff`: which values have one canonical text.
* `ordered_normalize`: the names of objects stand in order.
* `isBlank_outsideStrings`: there is no white space outside strings.
* `canonicalText_unambiguous`: all of this together.
-/

namespace SealedGraph

namespace Members

/-- A table has all pairs of different names. -/
theorem perm_ofList {α : Type} {pairs : List (String × α)}
    (hDistinct : (pairs.map (·.1)).Nodup) :
    (ofList pairs).Perm pairs :=
  (List.perm_ext_iff_of_nodup (nodup_of_ascending (ascending_ofList pairs))
    hDistinct.of_map).mpr
    fun _ => mem_ofList_iff hDistinct

end Members

namespace Json

/-! ## Values up to the order of members -/

/-- No object has two members of one name. -/
inductive Distinct : Json → Prop where
  | null : Distinct .null
  | bool (value : Bool) : Distinct (.bool value)
  | number (value : Number) : Distinct (.number value)
  | string (text : String) : Distinct (.string text)
  | array {items : List Json} : (∀ item ∈ items, Distinct item) → Distinct
      (.array items)
  | object {members : List (String × Json)} : (members.map (·.1)).Nodup →
      (∀ member ∈ members, Distinct member.2) → Distinct (.object members)

mutual
/-- The same value, but for the order of the members of its objects. -/
inductive Reordered : Json → Json → Prop where
  | null : Reordered .null .null
  | bool (value : Bool) : Reordered (.bool value) (.bool value)
  | number (value : Number) : Reordered (.number value) (.number value)
  | string (text : String) : Reordered (.string text) (.string text)
  | array {items others : List Json} : ReorderedItems items others →
      Reordered (.array items) (.array others)
  | object {members arranged others : List (String × Json)} :
      ReorderedMembers members arranged →
      arranged.Perm others → Reordered (.object members) (.object others)

inductive ReorderedItems : List Json → List Json → Prop where
  | nil : ReorderedItems [] []
  | cons {v w : Json} {items others : List Json} : Reordered v w →
      ReorderedItems items others →
      ReorderedItems (v :: items) (w :: others)

/-- Members of the same names in the same order. -/
inductive ReorderedMembers :
    List (String × Json) → List (String × Json) → Prop where
  | nil : ReorderedMembers [] []
  | cons (name : String) {v w : Json} {members others : List (String × Json)} :
      Reordered v w →
      ReorderedMembers members others →
      ReorderedMembers ((name, v) :: members) ((name, w) :: others)
end

/-! ## Values of one text -/

/-- Members in normal form that are those of others can be arranged like
them. -/
theorem exists_arranged {members others : List (String × Json)}
    (h : (normalizeMembers members).Perm (normalizeMembers others)) :
    ∃ arranged, normalizeMembers members = normalizeMembers arranged ∧
      arranged.Perm others := by
  rw [normalizeMembers_eq_map others] at h
  obtain ⟨arranged, hArranged, hPerm⟩ :=
    (congrFun (congrFun (List.eq_map_comp_perm _) _) _).mpr h
  exact ⟨arranged, hArranged.trans (normalizeMembers_eq_map arranged).symm,
    hPerm⟩

theorem perm_ofList_normalizeMembers {members : List (String × Json)}
    (hDistinct : (members.map (·.1)).Nodup) :
    (Members.ofList (normalizeMembers members)).Perm
      (normalizeMembers members) :=
  Members.perm_ofList (by rwa [names_normalizeMembers])

mutual
/-- Values of one normal form are the same but for the order of members. -/
theorem reordered_of_normalize_eq :
    ∀ (u : Json) {v : Json}, Distinct u → Distinct v →
    u.normalize = v.normalize → Reordered u v
  | .null, v, _, _, h => by
      cases v with
      | null => exact .null
      | _ => exact Json.noConfusion h
  | .bool value, v, _, _, h => by
      cases v with
      | bool other =>
          cases h
          exact .bool value
      | _ => exact Json.noConfusion h
  | .number value, v, _, _, h => by
      cases v with
      | number other =>
          cases h
          exact .number value
      | _ => exact Json.noConfusion h
  | .string text, v, _, _, h => by
      cases v with
      | string other =>
          cases h
          exact .string text
      | _ => exact Json.noConfusion h
  | .array items, v, .array hItems, hv, h => by
      cases v with
      | array others =>
          cases hv with
          | array hOthers =>
              exact .array
                (reorderedItems_of_normalize_eq items hItems hOthers
                  (array.inj h))
      | _ => exact Json.noConfusion h
  | .object members, v, .object hNames hMembers, hv, h => by
      cases v with
      | object others =>
          cases hv with
          | object hOtherNames hOthers =>
              have hTables : Members.ofList (normalizeMembers members) =
                  Members.ofList (normalizeMembers others) := object.inj h
              have hPerm := (perm_ofList_normalizeMembers hNames).symm
              rw [hTables] at hPerm
              obtain ⟨arranged, hArranged, hPerm⟩ :=
                exists_arranged
                  (hPerm.trans (perm_ofList_normalizeMembers hOtherNames))
              exact .object (reorderedMembers_of_normalize_eq members hMembers
                (fun member hMember =>
                  hOthers member (hPerm.mem_iff.mp hMember)) hArranged) hPerm
      | _ => exact Json.noConfusion h

theorem reorderedItems_of_normalize_eq :
    ∀ (items : List Json) {others : List Json},
    (∀ item ∈ items, Distinct item) → (∀ item ∈ others, Distinct item) →
    normalizeItems items = normalizeItems others → ReorderedItems items others
  | [], others, _, _, h => by
      cases others with
      | nil => exact .nil
      | cons _ _ => cases h
  | item :: items, others, hItems, hOthers, h => by
      cases others with
      | nil => cases h
      | cons other others =>
          obtain ⟨hFirst, hRest⟩ := List.cons.inj h
          obtain ⟨hItem, hItems⟩ := List.forall_mem_cons.mp hItems
          obtain ⟨hOther, hOthers⟩ := List.forall_mem_cons.mp hOthers
          exact .cons (reordered_of_normalize_eq item hItem hOther hFirst)
            (reorderedItems_of_normalize_eq items hItems hOthers hRest)

theorem reorderedMembers_of_normalize_eq : ∀ (members : List (String × Json))
    {others : List (String × Json)}, (∀ member ∈ members, Distinct member.2) →
    (∀ member ∈ others, Distinct member.2) →
    normalizeMembers members = normalizeMembers others →
    ReorderedMembers members others
  | [], others, _, _, h => by
      cases others with
      | nil => exact .nil
      | cons _ _ => cases h
  | (name, value) :: members, others, hMembers, hOthers, h => by
      cases others with
      | nil => cases h
      | cons other others =>
          obtain ⟨hFirst, hRest⟩ := List.cons.inj h
          obtain ⟨hName, hNormal⟩ := Prod.mk.inj hFirst
          obtain ⟨hValue, hMembers⟩ := List.forall_mem_cons.mp hMembers
          obtain ⟨hOther, hOthers⟩ := List.forall_mem_cons.mp hOthers
          have hSame := reordered_of_normalize_eq value hValue hOther hNormal
          have hOthersSame :=
            reorderedMembers_of_normalize_eq members hMembers hOthers hRest
          rw [show other = (name, other.2) from Prod.ext hName.symm rfl]
          exact .cons name hSame hOthersSame
end

mutual
/-- Values that are the same but for the order of members have one normal
form. -/
theorem normalize_eq_of_reordered :
    ∀ (u : Json) {v : Json}, Distinct v → Reordered u v →
    u.normalize = v.normalize
  | .null, _, _, h => by
      cases h
      rfl
  | .bool _, _, _, h => by
      cases h
      rfl
  | .number _, _, _, h => by
      cases h
      rfl
  | .string _, _, _, h => by
      cases h
      rfl
  | .array items, _, hv, h => by
      cases h with
      | array hItems =>
        cases hv with
        | array hOthers =>
          rw [normalize, normalize,
            normalizeItems_eq_of_reordered items hOthers hItems]
  | .object members, _, hv, h => by
      cases h with
      | object hMembers hPerm =>
        cases hv with
        | object hNames hOthers =>
          have hArranged := normalizeMembers_eq_of_reordered members
            (fun member hMember => hOthers member (hPerm.mem_iff.mp hMember))
              hMembers
          have hNormal := hPerm.map fun member => (member.1, normalize member.2)
          rw [← normalizeMembers_eq_map, ← normalizeMembers_eq_map, ← hArranged]
            at hNormal
          rw [normalize, normalize, Members.ofList_of_perm
            (hNormal.trans (perm_ofList_normalizeMembers hNames).symm)
              (Members.ascending_ofList _)]

theorem normalizeItems_eq_of_reordered :
    ∀ (items : List Json) {others : List Json},
    (∀ item ∈ others, Distinct item) → ReorderedItems items others →
    normalizeItems items = normalizeItems others
  | [], _, _, h => by
      cases h
      rfl
  | item :: items, _, hOthers, h => by
      cases h with
      | cons hFirst hRest =>
        obtain ⟨hOther, hOthers⟩ := List.forall_mem_cons.mp hOthers
        rw [normalizeItems, normalizeItems,
          normalize_eq_of_reordered item hOther hFirst,
          normalizeItems_eq_of_reordered items hOthers hRest]

theorem normalizeMembers_eq_of_reordered : ∀ (members : List (String × Json))
    {others : List (String × Json)}, (∀ member ∈ others, Distinct member.2) →
    ReorderedMembers members others →
    normalizeMembers members = normalizeMembers others
  | [], _, _, h => by
      cases h
      rfl
  | (_, value) :: members, _, hOthers, h => by
      cases h with
      | cons name hFirst hRest =>
        obtain ⟨hOther, hOthers⟩ := List.forall_mem_cons.mp hOthers
        rw [normalizeMembers, normalizeMembers,
          normalize_eq_of_reordered value hOther hFirst,
          normalizeMembers_eq_of_reordered members hOthers hRest]
end

/-- Values have one canonical text exactly if they are the same but for the
order of members. -/
theorem canonicalText_eq_iff {u v : Json} (hu : Distinct u) (hv : Distinct v) :
    u.canonicalText = v.canonicalText ↔ Reordered u v := by
  constructor
  · intro h
    exact reordered_of_normalize_eq u hu hv (eq_of_canonicalText_eq h)
  · intro h
    rw [canonicalText, canonicalText, normalize_eq_of_reordered u hv h]

/-! ## Normal forms of values -/

/-- The names of every object stand in strictly ascending order. -/
inductive Ordered : Json → Prop where
  | null : Ordered .null
  | bool (value : Bool) : Ordered (.bool value)
  | number (value : Number) : Ordered (.number value)
  | string (text : String) : Ordered (.string text)
  | array {items : List Json} : (∀ item ∈ items, Ordered item) → Ordered
      (.array items)
  | object {members : List (String × Json)} :
      (members.map (·.1)).Pairwise (· < ·) →
      (∀ member ∈ members, Ordered member.2) → Ordered (.object members)

mutual
theorem ordered_normalize : ∀ v : Json, Ordered v.normalize
  | .null => .null
  | .bool value => .bool value
  | .number value => .number value
  | .string text => .string text
  | .array items => .array (ordered_normalizeItems items)
  | .object members =>
      .object (Members.ascending_iff_names.mp (Members.ascending_ofList _))
        fun member hMember =>
          ordered_normalizeMembers members member (Members.mem_ofList hMember)

theorem ordered_normalizeItems : ∀ items : List Json,
    ∀ item ∈ normalizeItems items, Ordered item
  | [] => nofun
  | item :: rest =>
      List.forall_mem_cons.mpr ⟨ordered_normalize item,
        ordered_normalizeItems rest⟩

theorem ordered_normalizeMembers : ∀ members : List (String × Json),
    ∀ member ∈ normalizeMembers members, Ordered member.2
  | [] => nofun
  | (_, value) :: rest =>
      List.forall_mem_cons.mpr ⟨ordered_normalize value,
        ordered_normalizeMembers rest⟩
end

theorem Ordered.distinct {v : Json} (h : Ordered v) : Distinct v := by
  induction h with
  | null => exact .null
  | bool value => exact .bool value
  | number value => exact .number value
  | string text => exact .string text
  | array _ ih => exact .array ih
  | object hNames _ ih =>
      exact .object
        (Members.nodup_names (Members.ascending_iff_names.mpr hNames)) ih

/-- The normal form of a value is the value but for the order of members. -/
theorem reordered_normalize {v : Json} (hv : Distinct v) :
    Reordered v v.normalize :=
  reordered_of_normalize_eq v hv (ordered_normalize v).distinct
    (normalize_normalize v).symm

mutual
theorem depth_normalize_le : ∀ v : Json, v.normalize.depth ≤ v.depth
  | .null => Nat.le_refl _
  | .bool _ => Nat.le_refl _
  | .number _ => Nat.le_refl _
  | .string _ => Nat.le_refl _
  | .array items => Nat.succ_le_succ (depth_normalizeItems_le items)
  | .object members => by
      refine Nat.succ_le_succ (depthMembers_le.mpr fun member hMember => ?_)
      exact depthMembers_le.mp (depth_normalizeMembers_le members) member
        (Members.mem_ofList hMember)

theorem depth_normalizeItems_le : ∀ items : List Json,
    depthItems (normalizeItems items) ≤ depthItems items
  | [] => Nat.le_refl _
  | item :: rest => by
      have hItem := depth_normalize_le item
      have hRest := depth_normalizeItems_le rest
      simp only [normalizeItems, depthItems]
      omega

theorem depth_normalizeMembers_le : ∀ members : List (String × Json),
    depthMembers (normalizeMembers members) ≤ depthMembers members
  | [] => Nat.le_refl _
  | (_, value) :: rest => by
      have hValue := depth_normalize_le value
      have hRest := depth_normalizeMembers_le rest
      simp only [normalizeMembers, depthMembers]
      omega
end

/-! ## White space -/

mutual
/-- The characters of a text that stand outside its strings. -/
def outsideStrings : List Char → List Char
  | [] => []
  | '"' :: cs => afterString cs
  | c :: cs => c :: outsideStrings cs

/-- Those that stand after a string in which a text begins. -/
def afterString : List Char → List Char
  | [] => []
  | '"' :: cs => outsideStrings cs
  | '\\' :: _ :: cs => afterString cs
  | _ :: cs => afterString cs
end

/-- No white space stands outside the strings of a text, if none does in what
follows it. -/
def Dense (cs : List Char) : Prop :=
  ∀ rest, (∀ c ∈ outsideStrings rest, Text.isBlank c = false) →
    ∀ c ∈ outsideStrings (cs ++ rest), Text.isBlank c = false

theorem Dense.append {cs ds : List Char} (hcs : Dense cs) (hds : Dense ds) :
    Dense (cs ++ ds) := by
  intro rest hRest
  rw [List.append_assoc]
  exact hcs _ (hds rest hRest)

/-- Visible characters of ASCII other than the quote. -/
theorem dense_of_visible {cs : List Char}
    (h : ∀ c ∈ cs, 32 < c.toNat ∧ c.toNat < 127 ∧ c ≠ '"') : Dense cs := by
  induction cs with
  | nil => exact fun _ hRest => hRest
  | cons c cs ih =>
      obtain ⟨⟨hLow, hHigh, hQuote⟩, hOthers⟩ := List.forall_mem_cons.mp h
      intro rest hRest
      rw [List.cons_append, outsideStrings]
      · exact List.forall_mem_cons.mpr ⟨Text.isBlank_of_visible hLow hHigh,
          ih hOthers rest hRest⟩
      · exact hQuote

theorem afterString_plain {c : Char} (hQuote : c ≠ '"')
    (hBackslash : c ≠ '\\') (cs : List Char) :
    afterString (c :: cs) = afterString cs := by
  rw [afterString]
  · exact hQuote
  · exact fun _ _ h _ => hBackslash h

theorem digitChar_ne :
    ∀ n < 16, Nat.digitChar n ≠ '"' ∧ Nat.digitChar n ≠ '\\' := by
  decide

/-- A character that is written inside a string does not end it. -/
theorem afterString_renderChar (c : Char) (cs : List Char) :
    afterString (renderChar c ++ cs) = afterString cs := by
  unfold renderChar
  split
  · rfl
  · rfl
  · rfl
  · rfl
  · rfl
  · rfl
  · rfl
  · next hQuote hBackslash _ _ _ _ _ =>
    split
    · next hControl =>
      obtain ⟨hHighQuote, hHighBackslash⟩ :=
        digitChar_ne (c.toNat / 16) (by omega)
      obtain ⟨hLowQuote, hLowBackslash⟩ :=
        digitChar_ne (c.toNat % 16) (by omega)
      calc afterString
            ('\\' :: 'u' :: '0' :: '0' :: Nat.digitChar (c.toNat / 16) ::
              Nat.digitChar (c.toNat % 16) :: cs)
        _ = afterString
          (Nat.digitChar (c.toNat / 16) :: Nat.digitChar (c.toNat % 16) ::
            cs) := rfl
        _ = afterString (Nat.digitChar (c.toNat % 16) :: cs) :=
            afterString_plain hHighQuote hHighBackslash _
        _ = afterString cs := afterString_plain hLowQuote hLowBackslash _
    · exact afterString_plain hQuote hBackslash cs

theorem afterString_flatMap_renderChar (cs rest : List Char) :
    afterString (cs.flatMap renderChar ++ '"' :: rest) =
      outsideStrings rest := by
  induction cs with
  | nil => rfl
  | cons c cs ih =>
      rw [List.flatMap_cons, List.append_assoc, afterString_renderChar, ih]

/-- Nothing inside a string stands outside it. -/
theorem dense_renderString (text : String) : Dense (renderString text) := by
  intro rest hRest
  rw [renderString, List.cons_append, List.append_assoc, outsideStrings]
  exact (afterString_flatMap_renderChar text.toList rest).symm ▸ hRest

theorem tokenwise_dense : Tokenwise Dense where
  append := Dense.append
  mark := fun c hc => by
    have hVisible : ∀ d ∈ ['[', ']', '{', '}', ',', ':'], 32 < d.toNat ∧
        d.toNat < 127 ∧ d ≠ '"' := by
      simp
    exact dense_of_visible (List.forall_mem_singleton.mpr (hVisible c hc))
  null := dense_of_visible (by simp)
  bool := by
    rintro (_ | _)
    · exact dense_of_visible (by simp [render])
    · exact dense_of_visible (by simp [render])
  number := fun n => by
    refine dense_of_visible (forall_mem_render (fun c hDigit => ?_) (by simp) n)
    obtain ⟨hLow, hHigh⟩ := toNat_of_isDigit hDigit
    refine ⟨by omega, by omega, ?_⟩
    rintro rfl
    cases hDigit
  string := dense_renderString

/-- There is no white space outside the strings of a canonical text. -/
theorem isBlank_outsideStrings (v : Json) :
    ∀ c ∈ outsideStrings v.canonicalText.toList, Text.isBlank c = false := by
  have hDense := tokenwise_dense.render v.normalize [] nofun
  rw [List.append_nil] at hDense
  rw [canonicalText, String.toList_ofList]
  exact hDense

/-! ## Values and their texts -/

/-- Values in which no object repeats a name have one canonical text exactly if
they are the same but for the order of members.  With at most 127 containers
inside each other, such a value is read back, its members in ascending order, if
its numbers are read back.  The canonical text of any value spells its normal
form, in which the names of every object stand in ascending order, and white
space stands in strings only. -/
theorem canonicalText_unambiguous :
    (∀ u v : Json, Distinct u → Distinct v →
      (u.canonicalText = v.canonicalText ↔ Reordered u v)) ∧
    (∀ v : Json, Distinct v → v.ReadsBack → v.depth ≤ 127 →
      parse? v.canonicalText = some v.normalize ∧ Reordered v v.normalize) ∧
    ∀ v : Json,
      (Spells v.normalize v.canonicalText.toList ∧ v.normalize.Ordered) ∧
      ∀ c ∈ outsideStrings v.canonicalText.toList, Text.isBlank c = false := by
  refine ⟨fun u v => canonicalText_eq_iff, ?_,
    fun v => ⟨⟨?_, ordered_normalize v⟩, ?_⟩⟩
  · intro v hDistinct hNumbers hDepth
    have hNormalDepth : v.normalize.depth ≤ maxDepth :=
      (depth_normalize_le v).trans hDepth
    refine ⟨?_, reordered_normalize hDistinct⟩
    rw [parse?_canonicalText, if_pos hNormalDepth,
      reread?_eq_self_iff.mpr hNumbers.normalize]
  · rw [canonicalText, String.toList_ofList]
    exact spells_render v.normalize
  · exact isBlank_outsideStrings v

/-- A value with a list of numbers and a text with a quote, a line break, a
blank and a letter with a diaeresis, in the one order of its members or the
other one. -/
def mixedValue (forwards : Bool) : Json :=
  let one : String × Json :=
    ("b", .array [.number (.integer ⟨-1, by decide, by decide⟩),
      .number (.float (.zero true))])
  let other : String × Json := ("a", .object [("", .string "\"\n \u00e4")])
  .object (if forwards then [one, other] else [other, one])

theorem distinct_mixedValue (forwards : Bool) :
    Distinct (mixedValue forwards) := by
  have hList : Distinct (.array [.number (.integer ⟨-1, by decide, by decide⟩),
      .number (.float (.zero true))]) :=
    .array
      (List.forall_mem_cons.mpr ⟨.number _,
        List.forall_mem_singleton.mpr (.number _)⟩)
  have hInner : Distinct (.object [("", .string "\"\n \u00e4")]) :=
    .object (by decide) (List.forall_mem_singleton.mpr (.string _))
  cases forwards with
  | true =>
      exact .object (by decide)
        (List.forall_mem_cons.mpr ⟨hList, List.forall_mem_singleton.mpr hInner⟩)
  | false =>
      exact .object (by decide)
        (List.forall_mem_cons.mpr ⟨hInner, List.forall_mem_singleton.mpr hList⟩)

set_option maxRecDepth 100000 in
/-- Both orders have one text, which is read back; its only blank stands in a
string. -/
theorem canonicalText_unambiguous_mixed :
    (mixedValue true).canonicalText = (mixedValue false).canonicalText ∧
    Reordered (mixedValue true) (mixedValue false) ∧
    (mixedValue true).canonicalText =
      "\x7b\"a\":\x7b\"\":\"\\\"\\n \u00e4\"\x7d,\"b\":[-1,-0.0]\x7d" ∧
    (mixedValue true).ReadsBack ∧
    parse? (mixedValue true).canonicalText = some (mixedValue false) ∧
    Spells (mixedValue false) (mixedValue true).canonicalText.toList ∧
    (mixedValue false).Ordered ∧
    (∀ c ∈ outsideStrings (mixedValue true).canonicalText.toList,
      Text.isBlank c = false) ∧
    ¬ Reordered (.string "1") (.number (.integer ⟨1, by decide, by decide⟩)) ∧
    (Json.string "1").canonicalText ≠
      (Json.number (.integer ⟨1, by decide, by decide⟩)).canonicalText := by
  have hText : (mixedValue true).canonicalText =
      "\x7b\"a\":\x7b\"\":\"\\\"\\n \u00e4\"\x7d,\"b\":[-1,-0.0]\x7d" := by
    decide +kernel
  obtain ⟨hSame, hRead, hTexts⟩ := canonicalText_unambiguous
  have hNumbers : (mixedValue true).ReadsBack := by decide +kernel
  obtain ⟨hParsed, hReordered⟩ :=
    hRead (mixedValue true) (distinct_mixedValue true) hNumbers (by decide)
  obtain ⟨⟨hSpells, hOrdered⟩, hBlank⟩ := hTexts (mixedValue true)
  have hKinds :
      ¬ Reordered (.string "1")
        (.number (.integer ⟨1, by decide, by decide⟩)) := nofun
  exact ⟨(hSame _ _ (distinct_mixedValue true) (distinct_mixedValue false)).mpr
    hReordered,
    hReordered, hText, hNumbers, hParsed, hSpells, hOrdered, hBlank, hKinds,
    fun h => hKinds ((hSame _ _ (.string _) (.number _)).mp h)⟩

end Json
end SealedGraph
