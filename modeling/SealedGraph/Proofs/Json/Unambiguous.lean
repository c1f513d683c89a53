import SealedGraph.Proofs.Json.RoundTrip

/-!
# Texts that begin other texts

A text of a value ends where its value ends: one canonical text begins another
one only if they are equal, or if both are numbers.  Equal texts are those of
one value.  No text has a character below the space, so that its bytes are
never zero and can be told from the zeros that a block is padded with.

Texts are compared without the reader, which might take the texts of two
numbers for one.

## Main results

* `Tokenwise.render`: what holds of tokens holds of the texts of values.
* `eq_of_render_append`: values whose texts begin one text are the same.
* `eq_of_canonicalText_eq`: the canonical text determines the normal form.
* `render_eq_or_numbers_of_prefix`: when one text begins another one.
* `zero_notMem_canonicalBytes`: canonical bytes are not zero.
* `prefix_of_ofText_prefix`: beginnings of UTF-8 forms are forms of beginnings.
-/

namespace SealedGraph

namespace Bytes

theorem ofText_ofList (cs : List Char) :
    ofText (String.ofList cs) = cs.flatMap String.utf8EncodeChar := by
  simp [ofText, List.utf8Encode]

theorem zero_notMem_utf8EncodeChar {c : Char} (hNonzero : c.toNat ≠ 0) :
    0 ∉ String.utf8EncodeChar c := by
  have hByte : ∀ n : Nat, n % 256 ≠ 0 →
      (0 : UInt8) ≠ UInt8.ofNat n := fun n hn h => by
    have hToNat := congrArg UInt8.toNat h
    rw [UInt8.toNat_ofNat'] at hToNat
    exact hn hToNat.symm
  have hVal : c.val.toNat ≠ 0 := hNonzero
  unfold String.utf8EncodeChar
  simp only
  split
  · simp only [List.mem_singleton]
    exact hByte _ (by omega)
  · split
    · simp only [List.mem_cons, List.not_mem_nil, or_false, not_or]
      exact ⟨hByte _ (by omega), hByte _ (by omega)⟩
    · split
      · simp only [List.mem_cons, List.not_mem_nil, or_false, not_or]
        exact ⟨hByte _ (by omega), hByte _ (by omega), hByte _ (by omega)⟩
      · simp only [List.mem_cons, List.not_mem_nil, or_false, not_or]
        exact ⟨hByte _ (by omega), hByte _ (by omega), hByte _ (by omega),
          hByte _ (by omega)⟩

theorem zero_notMem_ofText {cs : List Char} (hNonzero : ∀ c ∈ cs, c.toNat ≠ 0) :
    0 ∉ ofText (String.ofList cs) := by
  rw [ofText_ofList]
  intro h
  obtain ⟨c, hc, hZero⟩ := List.mem_flatMap.mp h
  exact zero_notMem_utf8EncodeChar (hNonzero c hc) hZero

theorem prefix_of_ofText_prefix {cs ds : List Char}
    (h : ofText (String.ofList cs) <+: ofText (String.ofList ds)) :
    cs <+: ds := by
  obtain ⟨rest, hRest⟩ := h
  rw [ofText_ofList, ofText_ofList] at hRest
  refine List.isPrefix_of_utf8Encode_append_eq_utf8Encode rest.toByteArray ?_
  rw [List.utf8Encode, List.utf8Encode, ← hRest, List.toByteArray_append]

end Bytes

namespace Json

/-! ## Tokens of texts -/

/-- The characters of a number are digits, signs, the point and the mark of an
exponent. -/
theorem forall_mem_render {P : Char → Prop}
    (hDigit : ∀ c, c.isDigit = true → P c)
    (hMark : ∀ c ∈ ['-', '+', '.', 'e'], P c) (n : Number) :
    ∀ c ∈ n.render, P c := by
  have hText := n.wellFormed_text
  have hDigits {cs : List Char} (h : Digits cs) : ∀ c ∈ cs, P c :=
    fun c hc => hDigit c (h.2 c hc)
  have hFraction : ∀ c ∈ n.text.fractionChars, P c := by
    unfold NumberText.fractionChars
    split
    · exact nofun
    · next digits hSome =>
      exact List.forall_mem_cons.mpr ⟨hMark _ (by decide),
        hDigits (hText.fraction digits hSome)⟩
  have hExponent : ∀ c ∈ n.text.exponentChars, P c := by
    unfold NumberText.exponentChars
    split
    · exact nofun
    · next negative digits hSome =>
      refine List.forall_mem_cons.mpr ⟨hMark _ (by decide),
        List.forall_mem_cons.mpr ⟨?_, ?_⟩⟩
      · exact hMark _ (by cases negative <;> decide)
      · exact hDigits (hText.exponent negative digits hSome)
  have hMagnitude : ∀ c ∈ n.text.magnitudeChars, P c :=
    List.forall_mem_append.mpr ⟨hDigits hText.whole,
      List.forall_mem_append.mpr ⟨hFraction, hExponent⟩⟩
  rw [← n.chars_text, NumberText.chars]
  split
  · exact List.forall_mem_cons.mpr ⟨hMark _ (by decide), hMagnitude⟩
  · exact hMagnitude

/-- A property of texts that is proved of each token, and kept when texts are
put together. -/
structure Tokenwise (P : List Char → Prop) : Prop where
  append : ∀ {cs ds : List Char}, P cs → P ds → P (cs ++ ds)
  mark : ∀ c ∈ ['[', ']', '{', '}', ',', ':'], P [c]
  null : P ['n', 'u', 'l', 'l']
  bool : ∀ value, P (render (.bool value))
  number : ∀ n : Number, P n.render
  string : ∀ text, P (renderString text)

namespace Tokenwise

variable {P : List Char → Prop} (h : Tokenwise P)

include h

theorem member (name : String) {first others : List Char} (hFirst : P first)
    (hOthers : P others) :
    P (renderString name ++ ':' :: (first ++ others)) :=
  h.append (h.string name)
    (h.append (h.mark ':' (by decide)) (h.append hFirst hOthers))

mutual
/-- Such a property holds of the texts of all values. -/
theorem render : ∀ v : Json, P (Json.render v)
  | .null => h.null
  | .bool value => h.bool value
  | .number n => h.number n
  | .string text => h.string text
  | .array [] => h.append (h.mark '[' (by decide)) (h.mark ']' (by decide))
  | .array (item :: rest) =>
      h.append (h.mark '[' (by decide))
        (h.append (render item) (renderItems rest))
  | .object [] => h.append (h.mark '{' (by decide)) (h.mark '}' (by decide))
  | .object ((name, value) :: rest) =>
      h.append (h.mark '{' (by decide))
        (h.member name (render value) (renderMembers rest))

theorem renderItems : ∀ items : List Json, P (Json.renderItems items)
  | [] => h.mark ']' (by decide)
  | item :: rest =>
      h.append (h.mark ',' (by decide))
        (h.append (render item) (renderItems rest))

theorem renderMembers :
    ∀ members : List (String × Json), P (Json.renderMembers members)
  | [] => h.mark '}' (by decide)
  | (name, value) :: rest =>
      h.append (h.mark ',' (by decide))
        (h.member name (render value) (renderMembers rest))
end

end Tokenwise

/-! ## Control characters -/

/-- Neither control characters nor the character of number zero. -/
def Printable (cs : List Char) : Prop := ∀ c ∈ cs, 32 ≤ c.toNat

instance (cs : List Char) : Decidable (Printable cs) :=
  decidable_of_iff (cs.all (fun c => 32 ≤ c.toNat) = true) (by simp [Printable])

theorem printable_append {cs ds : List Char} :
    Printable (cs ++ ds) ↔ Printable cs ∧ Printable ds :=
  List.forall_mem_append

theorem printable_cons {c : Char} {cs : List Char} :
    Printable (c :: cs) ↔ 32 ≤ c.toNat ∧ Printable cs :=
  List.forall_mem_cons

/-- The digits stand between the slash and the colon. -/
theorem toNat_of_isDigit {c : Char} (hDigit : c.isDigit = true) :
    48 ≤ c.toNat ∧ c.toNat ≤ 57 := by
  simp only [Char.isDigit, ge_iff_le, Bool.and_eq_true, decide_eq_true_eq,
    UInt32.le_iff_toNat_le] at hDigit
  exact hDigit

theorem le_toNat_digitChar : ∀ n < 16, 48 ≤ (Nat.digitChar n).toNat := by
  decide

theorem printable_renderChar (c : Char) : Printable (renderChar c) := by
  unfold renderChar
  split
  · decide
  · decide
  · decide
  · decide
  · decide
  · decide
  · decide
  · split
    · next hControl =>
      have hHigh := le_toNat_digitChar (c.toNat / 16) (by omega)
      have hLow := le_toNat_digitChar (c.toNat % 16) (by omega)
      simp only [printable_cons]
      exact ⟨by decide, by decide, by decide, by decide, by omega,
        by omega, nofun⟩
    · next hControl =>
        exact printable_cons.mpr ⟨Nat.le_of_not_lt hControl, nofun⟩

theorem printable_renderString (text : String) :
    Printable (renderString text) := by
  refine printable_cons.mpr ⟨by decide,
    printable_append.mpr ⟨fun c hc => ?_, ?_⟩⟩
  · obtain ⟨d, _, hd⟩ := List.mem_flatMap.mp hc
    exact printable_renderChar d c hd
  · exact printable_cons.mpr ⟨by decide, nofun⟩

theorem tokenwise_printable : Tokenwise Printable where
  append := fun hcs hds => printable_append.mpr ⟨hcs, hds⟩
  mark := by simp [Printable]
  null := by decide
  bool := by decide
  number := by
    refine forall_mem_render (fun c hDigit => ?_) (by simp)
    have hBounds := toNat_of_isDigit hDigit
    omega
  string := printable_renderString

theorem zero_notMem_canonicalBytes (v : Json) : 0 ∉ v.canonicalBytes :=
  Bytes.zero_notMem_ofText fun c hc => by
    have hPrintable := tokenwise_printable.render v.normalize c hc
    omega

/-! ## Beginnings -/

/-- Only numbers begin with a sign or a digit. -/
theorem exists_number_of_head {v : Json} {c : Char} {cs rest : List Char}
    (hRender : render v ++ rest = c :: cs)
    (hFirst : c = '-' ∨ c.isDigit = true) : ∃ n, v = .number n := by
  have hOther := fun d => ne_of_sign_or_digit (d := d) hFirst
  match v with
  | .null =>
      exact absurd (List.cons.inj hRender).1.symm (hOther _ (by decide) rfl)
  | .bool true =>
      exact absurd (List.cons.inj hRender).1.symm (hOther _ (by decide) rfl)
  | .bool false =>
      exact absurd (List.cons.inj hRender).1.symm (hOther _ (by decide) rfl)
  | .number n => exact ⟨n, rfl⟩
  | .string _ =>
      exact absurd (List.cons.inj hRender).1.symm (hOther _ (by decide) rfl)
  | .array [] =>
      exact absurd (List.cons.inj hRender).1.symm (hOther _ (by decide) rfl)
  | .array (_ :: _) =>
      exact absurd (List.cons.inj hRender).1.symm (hOther _ (by decide) rfl)
  | .object [] =>
      exact absurd (List.cons.inj hRender).1.symm (hOther _ (by decide) rfl)
  | .object ((_, _) :: _) =>
      exact absurd (List.cons.inj hRender).1.symm (hOther _ (by decide) rfl)

/-- The kind of a value: how its text begins, or the digit zero for numbers. -/
def mark : Json → Char
  | .null => 'n'
  | .bool true => 't'
  | .bool false => 'f'
  | .number _ => '0'
  | .string _ => '"'
  | .array _ => '['
  | .object _ => '{'

theorem number_or_render_eq_cons (v : Json) :
    (∃ n, v = .number n) ∨ ∃ cs, render v = v.mark :: cs := by
  cases v with
  | null => exact .inr ⟨_, rfl⟩
  | bool value => cases value <;> exact .inr ⟨_, rfl⟩
  | number n => exact .inl ⟨n, rfl⟩
  | string text => exact .inr ⟨_, rfl⟩
  | array items => cases items <;> exact .inr ⟨_, rfl⟩
  | object members => cases members <;> exact .inr ⟨_, rfl⟩

theorem exists_number_of_append {m : Number} {v : Json} {r s : List Char}
    (h : m.render ++ r = render v ++ s) : ∃ n, v = .number n := by
  obtain ⟨c, cs, hRender, hFirst⟩ := exists_render_eq_cons m
  rw [hRender, List.cons_append] at h
  exact exists_number_of_head h.symm hFirst

/-- Texts that begin alike are texts of one kind. -/
theorem mark_eq_of_append {u v : Json} {r s : List Char}
    (h : render u ++ r = render v ++ s) : u.mark = v.mark := by
  rcases number_or_render_eq_cons u with ⟨m, rfl⟩ | ⟨cs, hu⟩
  · obtain ⟨n, rfl⟩ := exists_number_of_append h
    rfl
  · rcases number_or_render_eq_cons v with ⟨n, rfl⟩ | ⟨ds, hv⟩
    · obtain ⟨m, rfl⟩ := exists_number_of_append h.symm
      rfl
    · rw [hu, hv] at h
      exact (List.cons.inj h).1

/-- No text of a value begins like the end of an array. -/
theorem render_append_ne {v : Json} {r s : List Char} :
    ']' :: r ≠ render v ++ s := by
  intro h
  obtain ⟨c, cs, hRender, _, hNe⟩ := exists_cons_of_spells (spells_render v)
  rw [hRender, List.cons_append] at h
  exact hNe (List.cons.inj h).1.symm

theorem ends_renderItems (items : List Json) (rest : List Char) :
    Ends (renderItems items ++ rest) :=
  (ends_of_spellsItems (spells_renderItems items) rest).2

theorem ends_renderMembers (members : List (String × Json))
    (rest : List Char) : Ends (renderMembers members ++ rest) :=
  (ends_of_spellsMembers (spells_renderMembers members) rest).2

theorem number_eq_of_render_append {m n : Number} {r s : List Char}
    (hr : Ends r) (hs : Ends s) (h : m.render ++ r = n.render ++ s) :
    m = n ∧ r = s := by
  have hRead := m.readNumber_render hr
  rw [h, n.readNumber_render hs, Option.some.injEq, Prod.mk.injEq] at hRead
  exact ⟨Number.text_injective hRead.1.symm, hRead.2.symm⟩

theorem string_eq_of_renderString_append {t u : String} {r s : List Char}
    (h : renderString t ++ r = renderString u ++ s) : t = u ∧ r = s := by
  simp only [renderString, List.cons_append, List.append_assoc,
    List.nil_append, List.cons.injEq, true_and] at h
  have hRead := readString_render t r
  rw [h, readString_render u s, Option.some.injEq, Prod.mk.injEq,
    Option.some.injEq] at hRead
  exact ⟨hRead.1.symm, hRead.2.symm⟩

mutual
/-- Values whose texts begin one text are the same, if it goes on with nothing
that could belong to a number. -/
theorem eq_of_render_append : ∀ (u v : Json) {r s : List Char},
    ((∃ n, u = .number n) → Ends r) → ((∃ n, v = .number n) → Ends s) →
    render u ++ r = render v ++ s → u = v ∧ r = s
  | .null, v, _, _, _, _, h => by
      have hMark := mark_eq_of_append h
      cases v with
      | null => exact ⟨rfl, List.append_cancel_left h⟩
      | bool value => cases value <;> simp [mark] at hMark
      | _ => simp [mark] at hMark
  | .bool value, v, _, _, _, _, h => by
      have hMark := mark_eq_of_append h
      cases v with
      | bool other =>
          obtain rfl : value = other := by
            cases value <;> cases other <;> simp [mark] at hMark ⊢
          exact ⟨rfl, List.append_cancel_left h⟩
      | _ => cases value <;> simp [mark] at hMark
  | .number m, v, _, _, hr, hs, h => by
      obtain ⟨n, rfl⟩ := exists_number_of_append h
      obtain ⟨rfl, hRest⟩ :=
        number_eq_of_render_append (hr ⟨m, rfl⟩) (hs ⟨n, rfl⟩) h
      exact ⟨rfl, hRest⟩
  | .string text, v, _, _, _, _, h => by
      have hMark := mark_eq_of_append h
      cases v with
      | string other =>
          obtain ⟨rfl, hRest⟩ := string_eq_of_renderString_append h
          exact ⟨rfl, hRest⟩
      | bool value => cases value <;> simp [mark] at hMark
      | _ => simp [mark] at hMark
  | .array items, v, _, _, _, _, h => by
      have hMark := mark_eq_of_append h
      cases v with
      | array others =>
          match items, others, h with
          | [], [], h => exact ⟨rfl, List.append_cancel_left h⟩
          | [], _ :: _, h =>
              simp only [render, List.cons_append, List.nil_append,
                List.append_assoc] at h
              exact absurd (List.cons.inj h).2 render_append_ne
          | _ :: _, [], h =>
              simp only [render, List.cons_append, List.nil_append,
                List.append_assoc] at h
              exact absurd (List.cons.inj h).2.symm render_append_ne
          | item :: rest, other :: others, h =>
              simp only [render, List.cons_append, List.append_assoc] at h
              obtain ⟨rfl, hItems⟩ := eq_of_render_append item other
                (fun _ => ends_renderItems _ _) (fun _ => ends_renderItems _ _)
                (List.cons.inj h).2
              obtain ⟨rfl, hRest⟩ := eq_of_renderItems_append rest others hItems
              exact ⟨rfl, hRest⟩
      | bool value => cases value <;> simp [mark] at hMark
      | _ => simp [mark] at hMark
  | .object members, v, _, _, _, _, h => by
      have hMark := mark_eq_of_append h
      cases v with
      | object others =>
          match members, others, h with
          | [], [], h => exact ⟨rfl, List.append_cancel_left h⟩
          | [], (_, _) :: _, h => simp [render, renderString] at h
          | (_, _) :: _, [], h => simp [render, renderString] at h
          | (name, value) :: rest, (name', value') :: others, h =>
              simp only [render, List.cons_append, List.append_assoc,
                List.cons.injEq, true_and] at h
              obtain ⟨rfl, hValue⟩ := string_eq_of_renderString_append h
              obtain ⟨rfl, hMembers⟩ := eq_of_render_append value value'
                (fun _ => ends_renderMembers _ _)
                (fun _ => ends_renderMembers _ _) (List.cons.inj hValue).2
              obtain ⟨rfl, hRest⟩ :=
                eq_of_renderMembers_append rest others hMembers
              exact ⟨rfl, hRest⟩
      | bool value => cases value <;> simp [mark] at hMark
      | _ => simp [mark] at hMark

theorem eq_of_renderItems_append : ∀ (items others : List Json)
    {r s : List Char}, renderItems items ++ r = renderItems others ++ s →
      items = others ∧ r = s
  | [], [], _, _, h => ⟨rfl, List.append_cancel_left h⟩
  | [], _ :: _, _, _, h => by simp [renderItems] at h
  | _ :: _, [], _, _, h => by simp [renderItems] at h
  | item :: rest, other :: others, _, _, h => by
      rw [renderItems, renderItems, List.cons_append, List.cons_append,
        List.append_assoc, List.append_assoc] at h
      obtain ⟨rfl, hItems⟩ := eq_of_render_append item other
        (fun _ => ends_renderItems _ _) (fun _ => ends_renderItems _ _)
        (List.cons.inj h).2
      obtain ⟨rfl, hRest⟩ := eq_of_renderItems_append rest others hItems
      exact ⟨rfl, hRest⟩

theorem eq_of_renderMembers_append : ∀ (members others : List (String × Json))
    {r s : List Char}, renderMembers members ++ r = renderMembers others ++ s →
      members = others ∧ r = s
  | [], [], _, _, h => ⟨rfl, List.append_cancel_left h⟩
  | [], (_, _) :: _, _, _, h => by simp [renderMembers] at h
  | (_, _) :: _, [], _, _, h => by simp [renderMembers] at h
  | (name, value) :: rest, (name', value') :: others, _, _, h => by
      simp only [renderMembers, List.cons_append, List.append_assoc,
        List.cons.injEq, true_and] at h
      obtain ⟨rfl, hValue⟩ := string_eq_of_renderString_append h
      obtain ⟨rfl, hMembers⟩ := eq_of_render_append value value'
        (fun _ => ends_renderMembers _ _) (fun _ => ends_renderMembers _ _)
        (List.cons.inj hValue).2
      obtain ⟨rfl, hRest⟩ := eq_of_renderMembers_append rest others hMembers
      exact ⟨rfl, hRest⟩
end

/-- The canonical text determines the normal form. -/
theorem eq_of_canonicalText_eq {u v : Json}
    (h : u.canonicalText = v.canonicalText) : u.normalize = v.normalize := by
  have hRender : render u.normalize ++ [] = render v.normalize ++ [] := by
    rw [List.append_nil, List.append_nil]
    exact String.ofList_inj.mp h
  exact (eq_of_render_append _ _ (fun _ => ends_of_blank blank_nil)
    (fun _ => ends_of_blank blank_nil) hRender).1

/-- Reading the longer text stops where the shorter one ends; only a number
might go on. -/
theorem render_eq_or_numbers_of_prefix {u v : Json}
    (h : render u <+: render v) :
    render u = render v ∨ ∃ m n, u = .number m ∧ v = .number n := by
  obtain ⟨rest, hRest⟩ := h
  by_cases hNumber : ∃ m, u = .number m
  · obtain ⟨m, rfl⟩ := hNumber
    have hNumber : m.render ++ rest = render v ++ [] := by
      rw [List.append_nil]
      exact hRest
    obtain ⟨n, hn⟩ := exists_number_of_append hNumber
    exact .inr ⟨m, n, rfl, hn⟩
  · left
    have hShort :=
      reads_of_spells u (spells_render u) (2 * (render v).length) 0 [] rest
        (by rw [← hRest, List.length_append]; omega) blank_nil fun h =>
          absurd h hNumber
    have hLong :=
      reads_of_spells v (spells_render v) (2 * (render v).length) 0 [] []
        (Nat.le_refl _) blank_nil fun _ => ends_of_blank blank_nil
    rw [List.append_nil] at hLong
    rw [hRest, hLong] at hShort
    have hNil : [] = rest := (Prod.mk.inj (Option.some.inj hShort)).2
    rw [← hRest, ← hNil, List.append_nil]

end Json
end SealedGraph
