import SealedGraph.Proofs.Json.Rereading
import SealedGraph.Proofs.Json.Strings

/-!
# What the texts of a value are read as

A value has many texts: blanks may stand between any two tokens, and the
members of an object are spelled in the order in which they stand.  The reader
takes each of them for the same source.  In it the numbers are those that the
texts of the value's numbers are read as, and the containers that are nested
beyond the limit are holes.  Where a text ends is plain from the text itself,
except that a number must not be followed by what could belong to it.

## Main results

* `reads_of_spells`: every text of a value is read as one source.
* `value?_within`: its value is there exactly when it is not nested too deeply
  and no number is read as beyond every double.
-/

namespace SealedGraph.Json

/-! ## Texts of a value -/

/-- Blanks and nothing else. -/
def Blank (cs : List Char) : Prop := ∀ c ∈ cs, isBlank c = true

theorem blank_nil : Blank [] := fun _ h => absurd h List.not_mem_nil

mutual
/-- Texts of a value: its tokens with blanks between them. -/
def Spells : Json → List Char → Prop
  | .null, cs => cs = ['n', 'u', 'l', 'l']
  | .bool true, cs => cs = ['t', 'r', 'u', 'e']
  | .bool false, cs => cs = ['f', 'a', 'l', 's', 'e']
  | .number n, cs => cs = n.render
  | .string text, cs => cs = renderString text
  | .array [], cs => ∃ b, Blank b ∧ cs = '[' :: (b ++ [']'])
  | .array (item :: rest), cs => ∃ b first others, Blank b ∧ Spells item first ∧
      SpellsItems rest others ∧ cs = '[' :: (b ++ (first ++ others))
  | .object [], cs => ∃ b, Blank b ∧ cs = '{' :: (b ++ ['}'])
  | .object ((name, value) :: rest), cs =>
      ∃ b b₁ b₂ first others, Blank b ∧ Blank b₁ ∧
      Blank b₂ ∧ Spells value first ∧ SpellsMembers rest others ∧
      cs = '{' ::
        (b ++ (renderString name ++ (b₁ ++ ':' :: (b₂ ++ (first ++ others)))))

/-- Texts of further items, each after a comma, and of the closing bracket. -/
def SpellsItems : List Json → List Char → Prop
  | [], cs => ∃ b, Blank b ∧ cs = b ++ [']']
  | item :: rest, cs => ∃ b b₁ first others, Blank b ∧ Blank b₁ ∧
      Spells item first ∧
      SpellsItems rest others ∧ cs = b ++ ',' :: (b₁ ++ (first ++ others))

/-- Texts of further members, each after a comma, and of the closing brace. -/
def SpellsMembers : List (String × Json) → List Char → Prop
  | [], cs => ∃ b, Blank b ∧ cs = b ++ ['}']
  | (name, value) :: rest, cs => ∃ b b₁ b₂ b₃ first others, Blank b ∧ Blank b₁ ∧
      Blank b₂ ∧
      Blank b₃ ∧ Spells value first ∧ SpellsMembers rest others ∧
      cs = b ++ ',' ::
        (b₁ ++ (renderString name ++ (b₂ ++ ':' :: (b₃ ++ (first ++ others)))))
end

/-! ## What a text is read as -/

mutual
/-- The source of a value when `room` containers may stand inside each other. -/
def within : Json → (room : Nat) → Source
  | .null, _ => .null
  | .bool value, _ => .bool value
  | .number n, _ => ((n.reread?).map .number).getD .hole
  | .string value, _ => .string value
  | .array items, room => nest room (.array (withinItems items (room - 1)))
  | .object members, room =>
      nest room (.object (withinMembers members (room - 1)))

def withinItems : List Json → (room : Nat) → List Source
  | [], _ => []
  | item :: rest, room => within item room :: withinItems rest room

def withinMembers :
    List (String × Json) → (room : Nat) → List (Option String × Source)
  | [], _ => []
  | (name, value) :: rest, room =>
      (some name, within value room) :: withinMembers rest room
end

/-- Lets a bound stand before a container's value: one container takes up one
place. -/
private theorem value?_nest {source : Source} {result : Option Json}
    {depth room : Nat}
    (h : source.value? = if depth ≤ room - 1 then result else none) :
    (nest room source).value? = if depth + 1 ≤ room then result else none := by
  unfold nest
  by_cases hRoom : room = 0
  · rw [if_pos hRoom, if_neg (by omega)]
    rfl
  · rw [if_neg hRoom, h]
    by_cases hFits : depth ≤ room - 1
    · rw [if_pos hFits, if_pos (by omega)]
    · rw [if_neg hFits, if_neg (by omega)]

mutual
theorem value?_within : ∀ (v : Json) (room : Nat), (within v room).value? =
    if v.depth ≤ room then v.reread?.map normalize else none
  | .null, _ => by simp [within, Source.value?, depth, reread?, normalize]
  | .bool _, _ => by simp [within, Source.value?, depth, reread?, normalize]
  | .string _, _ => by simp [within, Source.value?, depth, reread?, normalize]
  | .number n, room => by
      have hDepth : depth (.number n) ≤ room := Nat.zero_le room
      rw [within, if_pos hDepth, reread?]
      cases n.reread? with
      | none => rfl
      | some m => rfl
  | .array items, room => by
      rw [within, depth, reread?, Option.map_map]
      refine value?_nest ?_
      rw [Source.value?, itemValues?_within items (room - 1)]
      split
      · rw [Option.map_map]
        rfl
      · rfl
  | .object members, room => by
      rw [within, depth, reread?, Option.map_map]
      refine value?_nest ?_
      rw [Source.value?, memberValues?_within members (room - 1)]
      split
      · rw [Option.map_map]
        rfl
      · rfl

theorem itemValues?_within : ∀ (items : List Json) (room : Nat),
    Source.itemValues? (withinItems items room) =
      if depthItems items ≤ room then (rereadItems? items).map normalizeItems
      else none
  | [], _ => by
      simp [withinItems, Source.itemValues?, depthItems, rereadItems?,
        normalizeItems]
  | item :: rest, room => by
      rw [withinItems, Source.itemValues?, value?_within item room,
        itemValues?_within rest room, depthItems, rereadItems?]
      by_cases hItem : item.depth ≤ room
      · by_cases hRest : depthItems rest ≤ room
        · rw [if_pos hItem, if_pos hRest,
            if_pos (Nat.max_le.mpr ⟨hItem, hRest⟩)]
          cases item.reread? with
          | none => rfl
          | some value => cases rereadItems? rest <;> rfl
        · rw [if_neg hRest, if_neg fun h => hRest (Nat.max_le.mp h).2]
          cases (if item.depth ≤ room then item.reread?.map normalize else none)
          · rfl
          · rfl
      · rw [if_neg hItem, if_neg fun h => hItem (Nat.max_le.mp h).1]
        rfl

theorem memberValues?_within : ∀ (members : List (String × Json)) (room : Nat),
    Source.memberValues? (withinMembers members room) =
      if depthMembers members ≤ room then
        (rereadMembers? members).map normalizeMembers
      else none
  | [], _ => by
      simp [withinMembers, Source.memberValues?, depthMembers, rereadMembers?,
        normalizeMembers]
  | (name, value) :: rest, room => by
      rw [withinMembers, Source.memberValues?, value?_within value room,
        memberValues?_within rest room, depthMembers, rereadMembers?]
      by_cases hValue : value.depth ≤ room
      · by_cases hRest : depthMembers rest ≤ room
        · rw [if_pos hValue, if_pos hRest,
            if_pos (Nat.max_le.mpr ⟨hValue, hRest⟩)]
          cases value.reread? with
          | none => rfl
          | some found => cases rereadMembers? rest <;> rfl
        · rw [if_neg hRest, if_neg fun h => hRest (Nat.max_le.mp h).2]
          cases (if value.depth ≤ room then value.reread?.map normalize
            else none)
          · rfl
          · rfl
      · rw [if_neg hValue, if_neg fun h => hValue (Nat.max_le.mp h).1]
        rfl
end

/-! ## Beginnings and ends of texts -/

theorem skipBlanks_append {b cs : List Char} {c : Char} (hBlank : Blank b)
    (hc : isBlank c = false) : skipBlanks (b ++ c :: cs) = c :: cs := by
  rw [skipBlanks, List.dropWhile_append_of_pos hBlank,
    List.dropWhile_cons_of_neg (by simp [hc])]

/-- A sign or a digit is no other character. -/
theorem ne_of_sign_or_digit {c d : Char} (hFirst : c = '-' ∨ c.isDigit = true)
    (hSign : d ≠ '-') (hDigit : d.isDigit = false) : c ≠ d := by
  intro h
  rcases hFirst with hFirst | hFirst
  · exact hSign (h.symm.trans hFirst)
  · rw [h, hDigit] at hFirst
    exact Bool.noConfusion hFirst

theorem isBlank_of_sign_or_digit {c : Char}
    (hFirst : c = '-' ∨ c.isDigit = true) :
    isBlank c = false := by
  have hNe := fun d => ne_of_sign_or_digit (d := d) hFirst
  simp [isBlank, hNe ' ' (by decide) rfl, hNe '\t' (by decide) rfl,
    hNe '\n' (by decide) rfl, hNe '\r' (by decide) rfl]

/-- The first character of a number's text. -/
theorem exists_render_eq_cons (n : Number) :
    ∃ c cs, n.render = c :: cs ∧ (c = '-' ∨ c.isDigit = true) := by
  rw [← n.chars_text]
  exact NumberText.exists_chars_eq_cons n.wellFormed_text

/-- No text begins with a blank or with the bracket that closes an array. -/
theorem exists_cons_of_spells {v : Json} {cs : List Char} (h : Spells v cs) :
    ∃ c rest, cs = c :: rest ∧ isBlank c = false ∧ c ≠ ']' := by
  match v, h with
  | .null, h => exact ⟨_, _, h, rfl, by decide⟩
  | .bool true, h => exact ⟨_, _, h, rfl, by decide⟩
  | .bool false, h => exact ⟨_, _, h, rfl, by decide⟩
  | .number n, h =>
      obtain ⟨c, rest, hRender, hFirst⟩ := exists_render_eq_cons n
      exact ⟨c, rest, by rw [show cs = n.render from h, hRender],
        isBlank_of_sign_or_digit hFirst,
        ne_of_sign_or_digit hFirst (by decide) rfl⟩
  | .string text, h => exact ⟨_, _, h, rfl, by decide⟩
  | .array [], ⟨_, _, h⟩ => exact ⟨_, _, h, rfl, by decide⟩
  | .array (_ :: _), ⟨_, _, _, _, _, _, h⟩ => exact ⟨_, _, h, rfl, by decide⟩
  | .object [], ⟨_, _, h⟩ => exact ⟨_, _, h, rfl, by decide⟩
  | .object ((_, _) :: _), ⟨_, _, _, _, _, _, _, _, _, _, h⟩ =>
      exact ⟨_, _, h, rfl, by decide⟩

theorem ends_of_blank {b : List Char} (hBlank : Blank b) : Ends b := by
  intro c hc
  have hSpace := hBlank c (List.mem_of_mem_head? hc)
  simp only [isBlank, Bool.or_eq_true, decide_eq_true_eq] at hSpace
  rcases hSpace with ((rfl | rfl) | rfl) | rfl <;> decide

private theorem ends_append {b rest : List Char} {c : Char} (hBlank : Blank b)
    (hc : c = ',' ∨ c = ']' ∨ c = '}') : Ends (b ++ c :: rest) := by
  intro d hd
  cases b with
  | nil =>
      obtain rfl : c = d := by simpa using hd
      rcases hc with rfl | rfl | rfl <;> decide
  | cons d₁ b => exact ends_of_blank hBlank d hd

theorem ends_of_spellsItems {items : List Json} {cs : List Char}
    (h : SpellsItems items cs) (rest : List Char) :
    0 < cs.length ∧ Ends (cs ++ rest) := by
  match items, h with
  | [], ⟨b, hb, h⟩ =>
      rw [h, List.append_assoc]
      exact ⟨by simp, ends_append hb (.inr (.inl rfl))⟩
  | _ :: _, ⟨b, _, _, _, hb, _, _, _, h⟩ =>
      rw [h, List.append_assoc]
      exact ⟨by simp, ends_append hb (.inl rfl)⟩

theorem ends_of_spellsMembers {members : List (String × Json)} {cs : List Char}
    (h : SpellsMembers members cs) (rest : List Char) :
    0 < cs.length ∧ Ends (cs ++ rest) := by
  match members, h with
  | [], ⟨b, hb, h⟩ =>
      rw [h, List.append_assoc]
      exact ⟨by simp, ends_append hb (.inr (.inr rfl))⟩
  | (_, _) :: _, ⟨b, _, _, _, _, _, hb, _, _, _, _, _, h⟩ =>
      rw [h, List.append_assoc]
      exact ⟨by simp, ends_append hb (.inl rfl)⟩

/-! ## Reading -/

/-- A text is read as a value, with every room and before everything that may
follow. -/
def Reads (v : Json) (cs : List Char) : Prop :=
  ∀ (fuel room : Nat) (b rest : List Char), 2 * cs.length ≤ fuel → Blank b →
    ((∃ n, v = .number n) → Ends rest) →
    readValue fuel room (b ++ (cs ++ rest)) = some (within v room, rest)

/-- The first character of a text comes right after the blanks, before the fuel
is used up. -/
private theorem reads_of_succ {v : Json} {c : Char} {cs : List Char}
    (hc : isBlank c = false)
    (h : ∀ (fuel room : Nat) (rest : List Char), 2 * cs.length < fuel →
      ((∃ n, v = .number n) → Ends rest) →
      readValue (fuel + 1) room (c :: (cs ++ rest)) =
        some (within v room, rest)) :
    Reads v (c :: cs) := by
  intro fuel room b rest hFuel hBlank hEnds
  rw [List.length_cons] at hFuel
  rw [← readValue_skipBlanks, List.cons_append, skipBlanks_append hBlank hc]
  cases fuel with
  | zero => omega
  | succ fuel => exact h fuel room rest (by omega) hEnds

theorem reads_null : Reads .null ['n', 'u', 'l', 'l'] :=
  reads_of_succ rfl fun _ _ _ _ _ => rfl

theorem reads_true : Reads (.bool true) ['t', 'r', 'u', 'e'] :=
  reads_of_succ rfl fun _ _ _ _ _ => rfl

theorem reads_false : Reads (.bool false) ['f', 'a', 'l', 's', 'e'] :=
  reads_of_succ rfl fun _ _ _ _ _ => rfl

theorem reads_number (n : Number) : Reads (.number n) n.render := by
  obtain ⟨c, cs, hRender, hFirst⟩ := exists_render_eq_cons n
  have hRead {rest : List Char} (hEnds : Ends rest) :=
    n.readNumber_render hEnds
  rw [hRender] at hRead ⊢
  have hFree := isBlank_of_sign_or_digit hFirst
  refine reads_of_succ hFree fun fuel room rest _ hEnds => ?_
  have hOther := fun d => ne_of_sign_or_digit (d := d) hFirst
  rw [readValue, skipBlanks_cons hFree]
  -- A sign or a digit begins none of the other tokens.
  split
  · next heq => exact absurd (List.cons.inj heq).1 (hOther _ (by decide) rfl)
  · next heq => exact absurd (List.cons.inj heq).1 (hOther _ (by decide) rfl)
  · next heq => exact absurd (List.cons.inj heq).1 (hOther _ (by decide) rfl)
  · next heq => exact absurd (List.cons.inj heq).1 (hOther _ (by decide) rfl)
  · next heq => exact absurd (List.cons.inj heq).1 (hOther _ (by decide) rfl)
  · next heq => exact absurd (List.cons.inj heq).1 (hOther _ (by decide) rfl)
  · rw [← List.cons_append, hRead (hEnds ⟨n, rfl⟩), Option.map_some, within,
      n.reread?_eq]

theorem reads_string (text : String) :
    Reads (.string text) (renderString text) := by
  refine reads_of_succ rfl fun fuel room rest _ _ => ?_
  show (readString _).map _ = _
  rw [List.append_assoc, List.singleton_append, readString_render text rest]
  rfl

theorem reads_array_nil {b : List Char} (hb : Blank b) :
    Reads (.array []) ('[' :: (b ++ [']'])) := by
  refine reads_of_succ rfl fun fuel room rest _ _ => ?_
  rw [readValue, skipBlanks_cons rfl]
  simp only [List.append_assoc, List.singleton_append,
    skipBlanks_append (c := ']') hb rfl]
  rfl

theorem reads_object_nil {b : List Char} (hb : Blank b) :
    Reads (.object []) ('{' :: (b ++ ['}'])) := by
  refine reads_of_succ rfl fun fuel room rest _ _ => ?_
  rw [readValue, skipBlanks_cons rfl]
  simp only [List.append_assoc, List.singleton_append,
    skipBlanks_append (c := '}') hb rfl]
  rfl

/-- An array is read when its items are. -/
theorem reads_array_cons {item : Json} {items : List Json}
    {b first others : List Char}
    (hb : Blank b) (hFirst : Spells item first)
    (hItems :
      ∀ (fuel room : Nat) (rest : List Char),
      2 * (first.length + others.length) ≤ fuel →
      readItems fuel room (first ++ (others ++ rest)) =
        some (withinItems (item :: items) room, rest)) :
    Reads (.array (item :: items)) ('[' :: (b ++ (first ++ others))) := by
  refine reads_of_succ rfl fun fuel room rest hFuel _ => ?_
  obtain ⟨c, tail, hCons, hBlankFirst, hNe⟩ := exists_cons_of_spells hFirst
  have hRead := hItems fuel (room - 1) rest (by simp at hFuel; omega)
  rw [hCons, List.cons_append] at hRead
  rw [readValue, skipBlanks_cons rfl]
  simp only [List.append_assoc, hCons, List.cons_append,
    skipBlanks_append hb hBlankFirst]
  split
  · next heq => exact absurd (List.cons.inj heq).1 hNe
  · rw [hRead]
    rfl

/-- An object is read when its members are. -/
theorem reads_object_cons {name : String} {value : Json}
    {members : List (String × Json)}
    {b others : List Char} (hb : Blank b)
    (hMembers : ∀ (fuel room : Nat) (rest : List Char),
      2 * ((renderString name).length + others.length) ≤ fuel →
      readMembers fuel room (renderString name ++ (others ++ rest)) =
        some (withinMembers ((name, value) :: members) room, rest)) :
    Reads (.object ((name, value) :: members))
      ('{' :: (b ++ (renderString name ++ others))) := by
  refine reads_of_succ rfl fun fuel room rest hFuel _ => ?_
  have hRead := hMembers fuel (room - 1) rest (by simp at hFuel; omega)
  simp only [renderString, List.cons_append, List.append_assoc, List.nil_append]
    at hRead
  rw [readValue, skipBlanks_cons rfl]
  simp only [renderString, List.cons_append, List.append_assoc, List.nil_append,
    skipBlanks_append (c := '"') hb rfl]
  split
  · next heq => exact absurd (List.cons.inj heq).1 (by decide)
  · rw [hRead]
    rfl

section Member

variable {value : Json} {b₁ b₂ first : List Char} (hb₁ : Blank b₁)
  (hb₂ : Blank b₂) (hFirst : Reads value first) (name : String) (room : Nat)
  {fuel : Nat} {b rest cs : List Char} (hFuel : 2 * first.length ≤ fuel)
  (hBlank : Blank b) (hEnds : Ends rest)

include hb₁ hb₂ hFirst hFuel hBlank hEnds

theorem readMembers_last (hRest : skipBlanks rest = '}' :: cs) :
    readMembers (fuel + 1) room
        (b ++ (renderString name ++ (b₁ ++ ':' :: (b₂ ++ (first ++ rest))))) =
      some ([(some name, within value room)], cs) := by
  have hRead := hFirst fuel room b₂ rest hFuel hb₂ fun _ => hEnds
  rw [readMembers, renderString, List.cons_append, skipBlanks_append hBlank rfl]
  simp only [List.append_assoc, List.singleton_append, readString_render,
    Option.bind_eq_bind, Option.bind_some, skipBlanks_append (c := ':') hb₁ rfl,
    hRead, hRest]

theorem readMembers_more {members : List (Option String × Source)}
    {others : List Char} (hRest : skipBlanks rest = ',' :: cs)
    (hMembers : readMembers fuel room cs = some (members, others)) :
    readMembers (fuel + 1) room
        (b ++ (renderString name ++ (b₁ ++ ':' :: (b₂ ++ (first ++ rest))))) =
      some ((some name, within value room) :: members, others) := by
  have hRead := hFirst fuel room b₂ rest hFuel hb₂ fun _ => hEnds
  rw [readMembers, renderString, List.cons_append, skipBlanks_append hBlank rfl]
  simp only [List.append_assoc, List.singleton_append, readString_render,
    Option.bind_eq_bind, Option.bind_some, skipBlanks_append (c := ':') hb₁ rfl,
    hRead, hRest, hMembers]

end Member

mutual
/-- Every text of a value is read as that value. -/
theorem reads_of_spells :
    ∀ (v : Json) {cs : List Char}, Spells v cs → Reads v cs
  | .null, _, h => by
      subst h
      exact reads_null
  | .bool true, _, h => by
      subst h
      exact reads_true
  | .bool false, _, h => by
      subst h
      exact reads_false
  | .number n, _, h => by
      subst h
      exact reads_number n
  | .string text, _, h => by
      subst h
      exact reads_string text
  | .array [], _, ⟨_, hb, h⟩ => by
      subst h
      exact reads_array_nil hb
  | .array (item :: items), _, ⟨_, first, others, hb, hFirst, hOthers, h⟩ => by
      subst h
      obtain ⟨_, _, hCons, _⟩ := exists_cons_of_spells hFirst
      exact reads_array_cons hb hFirst fun fuel room rest hFuel =>
        readItems_of_spells items hOthers (reads_of_spells item hFirst)
          (by simp [hCons])
          fuel room [] rest hFuel blank_nil
  | .object [], _, ⟨_, hb, h⟩ => by
      subst h
      exact reads_object_nil hb
  | .object ((name, value) :: members), _,
      ⟨_, _, _, _, _, hb, hb₁, hb₂, hFirst, hOthers, h⟩ => by
      subst h
      exact reads_object_cons hb fun fuel room rest hFuel =>
        readMembers_of_spells members hOthers hb₁ hb₂
          (reads_of_spells value hFirst) name
          fuel room [] rest hFuel blank_nil

/-- Items are read from the first one on. -/
theorem readItems_of_spells : ∀ (items : List Json) {others : List Char},
    SpellsItems items others → ∀ {item : Json} {first : List Char},
    Reads item first → first ≠ [] →
    ∀ (fuel room : Nat) (b rest : List Char),
      2 * (first.length + others.length) ≤ fuel →
      Blank b → readItems fuel room (b ++ (first ++ (others ++ rest))) =
        some (withinItems (item :: items) room, rest)
  | items, others, hOthers, item, first, hFirst, hNe, 0, _, _, _, hFuel, _ => by
      have hPos : 0 < first.length := List.length_pos_iff.mpr hNe
      omega
  | [], others, hOthers, item, first, hFirst, hNe, fuel + 1, room, b, rest,
      hFuel, hBlank => by
      obtain ⟨hPos, hEnds⟩ := ends_of_spellsItems hOthers rest
      have hRead :=
        hFirst fuel room b (others ++ rest) (by omega) hBlank fun _ => hEnds
      obtain ⟨b₁, hb₁, h⟩ := hOthers
      rw [readItems, hRead]
      simp only [h, List.append_assoc, List.singleton_append,
        Option.bind_eq_bind, Option.bind_some,
        skipBlanks_append (c := ']') hb₁ rfl]
      rfl
  | item₁ :: items₁, others, hOthers, item, first, hFirst, hNe, fuel + 1, room,
      b, rest, hFuel,
      hBlank => by
      obtain ⟨hPos, hEnds⟩ := ends_of_spellsItems hOthers rest
      have hRead :=
        hFirst fuel room b (others ++ rest) (by omega) hBlank fun _ => hEnds
      obtain ⟨b₁, b₂, first₁, others₁, hb₁, hb₂, hFirst₁, hOthers₁, h⟩ :=
        hOthers
      obtain ⟨_, _, hCons, _⟩ := exists_cons_of_spells hFirst₁
      have hLength : first₁.length + others₁.length < others.length := by
        rw [h]
        simp only [List.length_append, List.length_cons]
        omega
      have hRest :=
        readItems_of_spells items₁ hOthers₁ (reads_of_spells item₁ hFirst₁)
          (by simp [hCons]) fuel room b₂ rest (by omega) hb₂
      rw [readItems, hRead]
      simp only [h, List.append_assoc, List.cons_append, Option.bind_eq_bind,
        Option.bind_some, skipBlanks_append (c := ',') hb₁ rfl, hRest]
      rfl

/-- Members are read from the first one on. -/
theorem readMembers_of_spells :
    ∀ (members : List (String × Json)) {others : List Char},
    SpellsMembers members others → ∀ {value : Json} {b₁ b₂ first : List Char},
    Blank b₁ →
    Blank b₂ → Reads value first →
    ∀ (name : String) (fuel room : Nat) (b rest : List Char),
      2 * ((renderString name).length +
        (b₁ ++ ':' :: (b₂ ++ (first ++ others))).length) ≤ fuel →
      Blank b →
      readMembers fuel room
          (b ++ (renderString name ++
            ((b₁ ++ ':' :: (b₂ ++ (first ++ others))) ++ rest))) =
        some (withinMembers ((name, value) :: members) room, rest)
  | members, others, hOthers, value, b₁, b₂, first, hb₁, hb₂, hFirst, name, 0,
      _, _, _, hFuel,
      _ => by
      simp [renderString] at hFuel
  | [], others, hOthers, value, b₁, b₂, first, hb₁, hb₂, hFirst, name, fuel + 1,
      room, b, rest,
      hFuel, hBlank => by
      simp only [List.length_append, List.length_cons] at hFuel
      obtain ⟨hPos, hEnds⟩ := ends_of_spellsMembers hOthers rest
      obtain ⟨d, hd, h⟩ := hOthers
      have hRest : skipBlanks (others ++ rest) = '}' :: rest := by
        rw [h, List.append_assoc]
        exact skipBlanks_append hd rfl
      rw [List.append_assoc, List.cons_append, List.append_assoc,
        List.append_assoc]
      exact readMembers_last hb₁ hb₂ hFirst name room (by omega)
        hBlank hEnds hRest
  | (name₁, value₁) :: members₁, others, hOthers, value, b₁, b₂, first, hb₁,
      hb₂, hFirst, name,
      fuel + 1, room, b, rest, hFuel, hBlank => by
      simp only [List.length_append, List.length_cons] at hFuel
      obtain ⟨hPos, hEnds⟩ := ends_of_spellsMembers hOthers rest
      obtain ⟨d, d₁, d₂, d₃, first₁, others₁, hd, hd₁, hd₂, hd₃, hFirst₁,
        hOthers₁, h⟩ :=
        hOthers
      have hLength : (renderString name₁).length +
          (d₂ ++ ':' :: (d₃ ++ (first₁ ++ others₁))).length <
            others.length := by
        rw [h]
        simp only [List.length_append, List.length_cons]
        omega
      have hRest :
          skipBlanks (others ++ rest) = ',' :: (d₁ ++ (renderString name₁ ++
            ((d₂ ++ ':' :: (d₃ ++ (first₁ ++ others₁))) ++ rest))) := by
        rw [h, List.append_assoc, List.cons_append, List.append_assoc,
          List.append_assoc]
        exact skipBlanks_append hd rfl
      have hMembers := readMembers_of_spells members₁ hOthers₁ hd₂ hd₃
        (reads_of_spells value₁ hFirst₁) name₁ fuel room d₁ rest (by omega) hd₁
      rw [List.append_assoc, List.cons_append, List.append_assoc,
        List.append_assoc]
      exact readMembers_more hb₁ hb₂ hFirst name room (by omega)
        hBlank hEnds hRest hMembers
end

end SealedGraph.Json
