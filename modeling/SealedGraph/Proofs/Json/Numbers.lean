import Mathlib
import SealedGraph.Json.Parser
import SealedGraph.Json.Printer
import SealedGraph.Proofs.Decimal.Exact

/-!
# Texts of numbers

The text of a number is a sign, digits without a leading zero, and for floats
a fraction, an exponent or both.  It is read to its end, whatever stands after
it, as long as that cannot belong to a number.  No two numbers have one text,
for a float is the double nearest to what its text says.

That is not to say that a float is read back: the reader rounds twice, and may
arrive at a neighbour.

## Main results

* `readNumber_chars`: well-formed parts are read as they were written.
* `Number.readNumber_render`: so is the text of a number.
* `Number.text_injective`: different numbers have different texts.
* `Number.reread?_integer`: integers are read back.
-/

namespace SealedGraph.Json

/-! ## Digits -/

/-- One decimal digit or more. -/
def Digits (cs : List Char) : Prop := cs ≠ [] ∧ ∀ c ∈ cs, c.isDigit = true

theorem digits_toDigits (n : Nat) : Digits (Nat.toDigits 10 n) :=
  ⟨Nat.toDigits_ne_nil,
    fun _ h => Nat.isDigit_of_mem_toDigits (by decide) (by decide) h⟩

/-- No zero stands before other digits. -/
def Plain (cs : List Char) : Prop := ∀ rest, cs = '0' :: rest → rest = []

theorem Digits.of_subset {cs ds : List Char} (hDigits : Digits ds)
    (hNe : cs ≠ []) (hSubset : ∀ c ∈ cs, c ∈ ds) : Digits cs :=
  ⟨hNe, fun c hc => hDigits.2 c (hSubset c hc)⟩

theorem Digits.append_zeros {digits : List Char} (hDigits : Digits digits)
    (count : Nat) :
    Digits (digits ++ List.replicate count '0') := by
  refine ⟨fun h => hDigits.1 (List.append_eq_nil_iff.mp h).1, fun c hc => ?_⟩
  rcases List.mem_append.mp hc with hc | hc
  · exact hDigits.2 c hc
  · rw [(List.mem_replicate.mp hc).2]
    rfl

theorem Digits.zeros_append {digits : List Char} (hDigits : Digits digits)
    (count : Nat) :
    Digits (List.replicate count '0' ++ digits) :=
  (hDigits.append_zeros count).of_subset
    (fun h => hDigits.1 (List.append_eq_nil_iff.mp h).2)
    fun _ hc => List.mem_append.mpr (List.mem_append.mp hc).symm

theorem Plain.take {digits : List Char} (hPlain : Plain digits) (count : Nat) :
    Plain (digits.take (count + 1)) := by
  intro rest hRest
  cases digits with
  | nil => simp at hRest
  | cons c cs =>
      rw [List.take_succ_cons, List.cons.injEq] at hRest
      have hNil : cs = [] := hPlain cs (by rw [hRest.1])
      rw [← hRest.2, hNil, List.take_nil]

theorem head_toDigits {n : Nat} :
    n ≠ 0 → (Nat.toDigits 10 n).head? ≠ some '0' := by
  induction n using Nat.strongRecOn with
  | ind n ih =>
      intro hPos
      by_cases hShort : n < 10
      · rw [Nat.toDigits_of_lt_base hShort]
        interval_cases n <;> simp_all [Nat.digitChar]
      · have hHead := ih (n / 10) (by omega) (by omega)
        rw [Nat.toDigits_of_base_le (by decide) (by omega)]
        rw [List.head?_append_of_ne_nil _ Nat.toDigits_ne_nil]
        exact hHead

theorem plain_toDigits (n : Nat) : Plain (Nat.toDigits 10 n) := by
  intro rest hRest
  by_cases hZero : n = 0
  · subst hZero
    simpa using hRest.symm
  · exact absurd (by rw [hRest]; rfl) (head_toDigits hZero)

theorem plain_toDigits_append_zeros {n count : Nat}
    (hZero : n = 0 → count = 0) :
    Plain (Nat.toDigits 10 n ++ List.replicate count '0') := by
  intro rest hRest
  by_cases hn : n = 0
  · rw [hZero hn, List.replicate_zero, List.append_nil] at hRest
    exact plain_toDigits n rest hRest
  · have hHead : (Nat.toDigits 10 n ++ List.replicate count '0').head? =
        (Nat.toDigits 10 n).head? :=
          List.head?_append_of_ne_nil _ Nat.toDigits_ne_nil
    rw [hRest] at hHead
    exact absurd hHead.symm (head_toDigits hn)

theorem takeWhile_digits {digits rest : List Char} (hDigits : Digits digits)
    (hRest : ∀ c ∈ rest.head?, c.isDigit = false) :
    (digits ++ rest).takeWhile Char.isDigit = digits := by
  have hStop : rest.takeWhile Char.isDigit = [] := by
    cases rest with
    | nil => rfl
    | cons c rest => simp [hRest c rfl]
  rw [List.takeWhile_append_of_pos hDigits.2, hStop, List.append_nil]

theorem dropWhile_digits {digits rest : List Char} (hDigits : Digits digits)
    (hRest : ∀ c ∈ rest.head?, c.isDigit = false) :
    (digits ++ rest).dropWhile Char.isDigit = rest := by
  rw [List.dropWhile_append_of_pos hDigits.2]
  cases rest with
  | nil => rfl
  | cons c rest => simp [hRest c rfl]

theorem readDigits_append {digits rest : List Char} (hDigits : Digits digits)
    (hRest : ∀ c ∈ rest.head?, c.isDigit = false) :
    readDigits (digits ++ rest) = some (digits, rest) := by
  rw [readDigits, takeWhile_digits hDigits hRest,
    dropWhile_digits hDigits hRest]
  cases digits with
  | nil => exact absurd rfl hDigits.1
  | cons c cs => rfl

theorem readWhole_append {digits rest : List Char} (hDigits : Digits digits)
    (hPlain : Plain digits) (hRest : ∀ c ∈ rest.head?, c.isDigit = false) :
    readWhole (digits ++ rest) = some (digits, rest) := by
  rw [readWhole, readDigits_append hDigits hRest]
  simp only [Option.bind_eq_bind, Option.bind_some]
  split
  · next c cs => exact absurd (hPlain (c :: cs) rfl) (by simp)
  · rfl

/-! ## Parts of a number -/

/-- What may stand after a number: nothing that could belong to it. -/
def Ends (rest : List Char) : Prop :=
  ∀ c ∈ rest.head?, c.isDigit = false ∧ c ≠ '.' ∧ c ≠ 'e' ∧ c ≠ 'E'

namespace NumberText

/-- The point and the digits after it. -/
def fractionChars (text : NumberText) : List Char :=
  match text.fraction with
  | none => []
  | some digits => '.' :: digits

/-- The exponent after its mark, always with a sign. -/
def exponentChars (text : NumberText) : List Char :=
  match text.exponent with
  | none => []
  | some (negative, digits) => 'e' :: (if negative then '-' else '+') :: digits

/-- The text without its sign. -/
def magnitudeChars (text : NumberText) : List Char :=
  text.whole ++ (text.fractionChars ++ text.exponentChars)

/-- The text that consists of these parts. -/
def chars (text : NumberText) : List Char :=
  if text.negative then '-' :: text.magnitudeChars else text.magnitudeChars

/-- The parts are what the grammar asks for. -/
structure WellFormed (text : NumberText) : Prop where
  whole : Digits text.whole
  plain : Plain text.whole
  fraction : ∀ digits, text.fraction = some digits → Digits digits
  exponent : ∀ negative digits, text.exponent = some (negative, digits) →
    Digits digits

section Reading

variable {text : NumberText} {rest : List Char}

theorem readExponent_append (hText : text.WellFormed) (hEnds : Ends rest) :
    readExponent (text.exponentChars ++ rest) = some (text.exponent, rest) := by
  unfold exponentChars
  cases hExponent : text.exponent with
  | none =>
      cases rest with
      | nil => rfl
      | cons c rest =>
          obtain ⟨_, _, hSmall, hLarge⟩ := hEnds c rfl
          show readExponent (c :: rest) = some (none, c :: rest)
          unfold readExponent
          split
          · next heq => exact absurd (List.cons.inj heq).1 hSmall
          · next heq => exact absurd (List.cons.inj heq).1 hLarge
          · rfl
  | some pair =>
      obtain ⟨negative, digits⟩ := pair
      have hDigits := hText.exponent negative digits hExponent
      have hRead := readDigits_append hDigits fun c hc => (hEnds c hc).1
      cases negative <;> simp [readExponent, hRead]

theorem head_exponentChars (text : NumberText) (hEnds : Ends rest) :
    ∀ c ∈ (text.exponentChars ++ rest).head?, c.isDigit = false ∧ c ≠ '.' := by
  intro c hc
  unfold exponentChars at hc
  cases hExponent : text.exponent with
  | none =>
      rw [hExponent] at hc
      exact ⟨(hEnds c hc).1, (hEnds c hc).2.1⟩
  | some pair =>
      simp only [hExponent, List.cons_append, List.head?_cons,
        Option.mem_some_iff] at hc
      subst hc
      exact ⟨rfl, by decide⟩

theorem readFraction_append (hText : text.WellFormed) (hEnds : Ends rest) :
    readFraction (text.fractionChars ++ (text.exponentChars ++ rest)) =
      some (text.fraction, text.exponentChars ++ rest) := by
  have hHead := head_exponentChars text hEnds
  unfold fractionChars
  cases hFraction : text.fraction with
  | none =>
      rw [List.nil_append]
      cases hRest : text.exponentChars ++ rest with
      | nil => rfl
      | cons c cs =>
          rw [hRest] at hHead
          unfold readFraction
          split
          · next heq => exact absurd (List.cons.inj heq).1 (hHead c rfl).2
          · rfl
  | some digits =>
      have hRead :=
        readDigits_append (hText.fraction digits hFraction) fun c hc =>
          (hHead c hc).1
      simp [readFraction, hRead]

theorem head_fractionChars (text : NumberText) (hEnds : Ends rest) :
    ∀ c ∈ (text.fractionChars ++ (text.exponentChars ++ rest)).head?,
      c.isDigit = false := by
  intro c hc
  unfold fractionChars at hc
  cases hFraction : text.fraction with
  | none =>
      rw [hFraction] at hc
      exact (head_exponentChars text hEnds c hc).1
  | some digits =>
      simp only [hFraction, List.cons_append, List.head?_cons,
        Option.mem_some_iff] at hc
      subst hc
      rfl

theorem readMagnitude_chars (hText : text.WellFormed) (hEnds : Ends rest) :
    readMagnitude text.negative (text.magnitudeChars ++ rest) =
      some (text, rest) := by
  have hWhole :=
    readWhole_append hText.whole hText.plain (head_fractionChars text hEnds)
  rw [readMagnitude, magnitudeChars, List.append_assoc,
    List.append_assoc, hWhole]
  show (readFraction _).bind _ = _
  rw [readFraction_append hText hEnds]
  show (readExponent _).bind _ = _
  rw [readExponent_append hText hEnds]
  rfl

/-- A text begins with its sign or with a digit. -/
theorem exists_chars_eq_cons (hText : text.WellFormed) :
    ∃ c cs, text.chars = c :: cs ∧ (c = '-' ∨ c.isDigit = true) := by
  unfold chars
  by_cases hNegative : text.negative = true
  · exact ⟨'-', text.magnitudeChars, if_pos hNegative, .inl rfl⟩
  · obtain ⟨c, cs, hWhole⟩ := List.exists_cons_of_ne_nil hText.whole.1
    refine ⟨c, cs ++ (text.fractionChars ++ text.exponentChars), ?_, .inr ?_⟩
    · rw [if_neg hNegative, magnitudeChars, hWhole, List.cons_append]
    · exact hText.whole.2 c (by rw [hWhole]; exact List.mem_cons_self ..)

theorem readNumber_chars (hText : text.WellFormed) (hEnds : Ends rest) :
    readNumber (text.chars ++ rest) = some (text, rest) := by
  have hRead := readMagnitude_chars hText hEnds
  unfold chars
  cases hNegative : text.negative with
  | true =>
      rw [hNegative] at hRead
      rw [if_pos rfl, List.cons_append]
      exact hRead
  | false =>
      obtain ⟨c, cs, hWhole⟩ := List.exists_cons_of_ne_nil hText.whole.1
      have hDigit : c.isDigit = true :=
        hText.whole.2 c (by rw [hWhole]; exact List.mem_cons_self ..)
      rw [hNegative] at hRead
      rw [if_neg (by simp)]
      unfold readNumber
      split
      · next heq =>
        rw [magnitudeChars, hWhole] at heq
        have hMinus : c = '-' := (List.cons.inj heq).1
        exact absurd hDigit (by rw [hMinus]; decide)
      · exact hRead

end Reading

/-! ## What the parts denote -/

/-- The magnitude as a decimal, with all of its digits. -/
def decimal (text : NumberText) : Decimal :=
  let fraction := text.fraction.getD []
  ⟨Nat.ofDigitChars 10 (text.whole ++ fraction) 0, text.shift - fraction.length⟩

/-- The parts of a magnitude written under a layout. -/
def ofDecimal (layout : Layout) (negative : Bool) (d : Decimal) : NumberText :=
  let digits := Nat.toDigits 10 d.coefficient
  let power : Int := d.exponent + digits.length - 1
  if layout.least ≤ power ∧ power ≤ layout.greatest then
    if 0 ≤ d.exponent then
      ⟨negative, digits ++ List.replicate d.exponent.toNat '0',
        some ['0'], none⟩
    else if 0 ≤ power then
      ⟨negative, digits.take (power.toNat + 1),
        some (digits.drop (power.toNat + 1)), none⟩
    else ⟨negative, ['0'],
      some (List.replicate ((-power).toNat - 1) '0' ++ digits), none⟩
  else
    ⟨negative, digits.take 1,
      if digits.length = 1 then none else some (digits.drop 1),
      some (power < 0, Nat.toDigits 10 power.natAbs)⟩

theorem negative_ofDecimal (layout : Layout) (negative : Bool) (d : Decimal) :
    (ofDecimal layout negative d).negative = negative := by
  simp only [ofDecimal]
  split
  · split
    · rfl
    · split <;> rfl
  · rfl

theorem magnitudeChars_ofDecimal (layout : Layout) (negative : Bool)
    (d : Decimal) :
    (ofDecimal layout negative d).magnitudeChars = layout.write d := by
  simp only [ofDecimal, Layout.write]
  split
  · split
    · simp [magnitudeChars, fractionChars, exponentChars]
    · split <;> simp [magnitudeChars, fractionChars, exponentChars]
  · split
    · simp [magnitudeChars, fractionChars, exponentChars]
    · simp [magnitudeChars, fractionChars, exponentChars]

/-- The text of a magnitude has a fraction, an exponent or both. -/
theorem isFloat_ofDecimal (layout : Layout) (negative : Bool) (d : Decimal) :
    (ofDecimal layout negative d).fraction ≠ none ∨
      (ofDecimal layout negative d).exponent ≠ none := by
  simp only [ofDecimal]
  split
  · left
    split
    · exact Option.some_ne_none _
    · split <;> exact Option.some_ne_none _
  · exact .inr (Option.some_ne_none _)

theorem wellFormed_ofDecimal (layout : Layout) (negative : Bool) {d : Decimal}
    (hZero : d.coefficient = 0 → d.exponent = 0) :
    (ofDecimal layout negative d).WellFormed := by
  have hDigits := digits_toDigits d.coefficient
  have hPlain := plain_toDigits d.coefficient
  have hLength : 0 < (Nat.toDigits 10 d.coefficient).length :=
    List.length_pos_iff.mpr hDigits.1
  have hTake : ∀ count,
      Digits ((Nat.toDigits 10 d.coefficient).take (count + 1)) := fun count =>
    hDigits.of_subset (by simp [hDigits.1]) fun _ => List.mem_of_mem_take
  have hDrop : ∀ count, count < (Nat.toDigits 10 d.coefficient).length →
      Digits ((Nat.toDigits 10 d.coefficient).drop count) := fun count hCount =>
    hDigits.of_subset (by simpa using hCount) fun _ => List.mem_of_mem_drop
  simp only [ofDecimal]
  split
  · split
    · next hWhole =>
      exact
        { whole := hDigits.append_zeros _
          plain := plain_toDigits_append_zeros fun h => by rw [hZero h]; rfl
          fraction := by rintro _ ⟨⟩; exact ⟨by simp, by simp⟩
          exponent := by rintro _ _ ⟨⟩ }
    · split
      · exact
          { whole := hTake _
            plain := hPlain.take _
            fraction := by rintro _ ⟨⟩; exact hDrop _ (by omega)
            exponent := by rintro _ _ ⟨⟩ }
      · exact
          { whole := ⟨by simp, by simp⟩
            plain := by rintro _ ⟨⟩; rfl
            fraction := by rintro _ ⟨⟩; exact hDigits.zeros_append _
            exponent := by rintro _ _ ⟨⟩ }
  · exact
      { whole := hTake 0
        plain := hPlain.take 0
        fraction := by
          intro digits hFraction
          split at hFraction
          · cases hFraction
          · cases hFraction
            exact hDrop 1 (by omega)
        exponent := by rintro _ _ ⟨⟩; exact digits_toDigits _ }

/-- An exponent is written as its sign and its digits. -/
theorem shift_of_power {text : NumberText} {power : Int}
    (h : text.exponent =
      some (decide (power < 0), Nat.toDigits 10 power.natAbs)) :
    text.shift = power := by
  rw [shift, h]
  by_cases hSign : power < 0
  · simp only [hSign, decide_true, Nat.ofDigitChars_ten_toDigits]
    omega
  · simp only [hSign, decide_false, Nat.ofDigitChars_ten_toDigits]
    omega

/-- Zeros after the digits are as good as an exponent. -/
private theorem reduce_decimal_whole (negative : Bool) {d : Decimal}
    (hWhole : 0 ≤ d.exponent) :
    (decimal ⟨negative,
      Nat.toDigits 10 d.coefficient ++ List.replicate d.exponent.toNat '0',
        some ['0'], none⟩).reduce = d.reduce := by
  have hZeros :
      Nat.toDigits 10 d.coefficient ++ List.replicate d.exponent.toNat '0' ++
        ['0'] =
      Nat.toDigits 10 d.coefficient ++
        List.replicate (d.exponent.toNat + 1) '0' := by
    rw [List.append_assoc, List.replicate_succ']
  simp only [decimal, shift, Option.getD_some, List.length_singleton, hZeros,
    Nat.ofDigitChars_append, Nat.ofDigitChars_ten_toDigits,
    Nat.ofDigitChars_replicate_zero]
  rw [mul_comm, Decimal.reduce_mul_pow]
  congr 2
  push_cast
  omega

/-- A point among the digits. -/
private theorem decimal_pointed (negative : Bool) {d : Decimal} {count : Nat}
    (hCount :
      (count : Int) = d.exponent + (Nat.toDigits 10 d.coefficient).length)
    (hPoint : d.exponent ≤ 0) :
    decimal ⟨negative, (Nat.toDigits 10 d.coefficient).take count,
      some ((Nat.toDigits 10 d.coefficient).drop count), none⟩ = d := by
  simp only [decimal, shift, Option.getD_some, List.take_append_drop,
    Nat.ofDigitChars_ten_toDigits, List.length_drop]
  congr 2
  omega

/-- Zeros between the point and the digits do not count. -/
private theorem decimal_small (negative : Bool) {d : Decimal} {zeros : Nat}
    (hZeros :
      (zeros : Int) = -(d.exponent + (Nat.toDigits 10 d.coefficient).length)) :
    decimal ⟨negative, ['0'],
      some (List.replicate zeros '0' ++ Nat.toDigits 10 d.coefficient),
      none⟩ = d := by
  have hLead :
      ['0'] ++ (List.replicate zeros '0' ++ Nat.toDigits 10 d.coefficient) =
        List.replicate (zeros + 1) '0' ++ Nat.toDigits 10 d.coefficient := by
    rw [List.replicate_succ]
    rfl
  simp only [decimal, shift, Option.getD_some, hLead, Nat.ofDigitChars_append,
    Nat.ofDigitChars_replicate_zero, mul_zero, Nat.ofDigitChars_ten_toDigits,
    List.length_append, List.length_replicate]
  congr 2
  push_cast
  omega

/-- One digit, the others after the point, and an exponent. -/
private theorem decimal_scientific (negative : Bool) (d : Decimal) {power : Int}
    (hPower : power = d.exponent + (Nat.toDigits 10 d.coefficient).length - 1) :
    decimal ⟨negative, (Nat.toDigits 10 d.coefficient).take 1,
      if (Nat.toDigits 10 d.coefficient).length = 1 then none
        else some ((Nat.toDigits 10 d.coefficient).drop 1),
      some (decide (power < 0), Nat.toDigits 10 power.natAbs)⟩ = d := by
  have hLength : 0 < (Nat.toDigits 10 d.coefficient).length :=
    List.length_pos_iff.mpr (digits_toDigits d.coefficient).1
  have hRest : (Nat.toDigits 10 d.coefficient).take 1 ++
      (if (Nat.toDigits 10 d.coefficient).length = 1 then none
        else some ((Nat.toDigits 10 d.coefficient).drop 1)).getD [] =
      Nat.toDigits 10 d.coefficient := by
    split
    · next hOne => simp [List.take_of_length_le (Nat.le_of_eq hOne)]
    · exact List.take_append_drop 1 _
  have hPlaces : ((if (Nat.toDigits 10 d.coefficient).length = 1 then none
      else some ((Nat.toDigits 10 d.coefficient).drop 1)).getD []).length =
      (Nat.toDigits 10 d.coefficient).length - 1 := by
    split
    · next hOne => simp [hOne]
    · simp
  have hShift (whole : List Char) (fraction : Option (List Char)) :
      shift ⟨negative, whole, fraction,
        some (decide (power < 0), Nat.toDigits 10 power.natAbs)⟩ = power :=
    shift_of_power rfl
  simp only [decimal, hShift, hRest, hPlaces, Nat.ofDigitChars_ten_toDigits]
  congr 2
  omega

/-- A magnitude's text denotes the decimal that was written, up to trailing
zeros. -/
theorem reduce_decimal_ofDecimal (layout : Layout) (negative : Bool)
    (d : Decimal) :
    (ofDecimal layout negative d).decimal.reduce = d.reduce := by
  simp only [ofDecimal]
  split
  · split
    · next hWhole => exact reduce_decimal_whole negative hWhole
    · split
      · next hPower => rw [decimal_pointed negative (by omega) (by omega)]
      · next hPower => rw [decimal_small negative (by omega)]
  · rw [decimal_scientific negative d rfl]

end NumberText

/-! ## Numbers -/

namespace Number

/-- The parts of the text of a number. -/
def text : Number → NumberText
  | .integer n =>
      ⟨decide (n.value < 0), Nat.toDigits 10 n.value.natAbs, none, none⟩
  | .float x => .ofDecimal layout x.negative x.shortest.reduce

theorem wellFormed_text (n : Number) : n.text.WellFormed := by
  cases n with
  | integer n =>
      exact
        { whole := digits_toDigits _
          plain := plain_toDigits _
          fraction := by rintro _ ⟨⟩
          exponent := by rintro _ _ ⟨⟩ }
  | float x =>
      exact NumberText.wellFormed_ofDecimal layout x.negative
        Decimal.exponent_reduce_of_zero

theorem chars_text (n : Number) : n.text.chars = n.render := by
  cases n with
  | integer n =>
      simp [text, NumberText.chars, NumberText.magnitudeChars,
        NumberText.fractionChars, NumberText.exponentChars, render]
  | float x =>
      simp only [text, NumberText.chars, NumberText.negative_ofDecimal,
        NumberText.magnitudeChars_ofDecimal, render]

theorem readNumber_render (n : Number) {rest : List Char} (hEnds : Ends rest) :
    readNumber (n.render ++ rest) = some (n.text, rest) := by
  rw [← chars_text]
  exact NumberText.readNumber_chars n.wellFormed_text hEnds

/-- A float is the double nearest to what its text says. -/
theorem ofDecimal_text (x : Binary64) :
    Binary64.ofDecimal x.negative (text (.float x)).decimal = some x := by
  have hDecimal := NumberText.reduce_decimal_ofDecimal layout x.negative
    x.shortest.reduce
  rw [Decimal.reduce_reduce] at hDecimal
  exact Binary64.ofDecimal_of_reduce_eq hDecimal

theorem text_integer_ne_float (n : Integer) (x : Binary64) :
    text (.integer n) ≠ text (.float x) := by
  intro h
  rcases NumberText.isFloat_ofDecimal layout x.negative x.shortest.reduce with
    hFraction | hExponent
  · exact hFraction (congrArg NumberText.fraction h).symm
  · exact hExponent (congrArg NumberText.exponent h).symm

theorem text_injective : Function.Injective text := by
  intro m n h
  cases m with
  | integer m =>
      cases n with
      | integer n =>
          have hSign := congrArg NumberText.negative h
          have hDigits := congrArg (Nat.ofDigitChars 10 · 0)
            (congrArg NumberText.whole h)
          simp only [text, decide_eq_decide, Nat.ofDigitChars_ten_toDigits]
            at hSign hDigits
          obtain ⟨m, _, _⟩ := m
          obtain ⟨n, _, _⟩ := n
          have hValue : m = n := by
            simp only at hSign hDigits
            omega
          subst hValue
          rfl
      | float x => exact absurd h (text_integer_ne_float m x)
  | float x =>
      cases n with
      | integer n => exact absurd h.symm (text_integer_ne_float n x)
      | float y =>
          have hSign : x.negative = y.negative := by
            have hNegative := congrArg NumberText.negative h
            rwa [text, text, NumberText.negative_ofDecimal,
              NumberText.negative_ofDecimal] at hNegative
          have hSame := ofDecimal_text x
          rw [h, hSign, ofDecimal_text y] at hSame
          rw [Option.some.inj hSame]

/-! ## Reading what was written -/

/-- What the text of a number is read as; none if that is beyond every
number. -/
def reread? (n : Number) : Option Number :=
  (readNumber n.render).bind fun read => read.1.number?

theorem reread?_eq (n : Number) : n.reread? = n.text.number? := by
  have hRead : readNumber (n.render ++ []) = some (n.text, []) :=
    n.readNumber_render fun _ h => nomatch h
  rw [List.append_nil] at hRead
  rw [reread?, hRead, Option.bind_some]

theorem reread?_integer (n : Integer) :
    reread? (.integer n) = some (.integer n) := by
  have hLeast := n.least
  have hGreatest := n.greatest
  rw [reread?_eq]
  simp only [text, NumberText.number?, Nat.ofDigitChars_ten_toDigits]
  by_cases hNegative : n.value < 0
  · rw [if_pos (by simpa using hNegative), dif_pos (by omega)]
    congr 3
    omega
  · rw [if_neg (by simpa using hNegative), dif_pos (by omega)]
    congr 3
    omega

end Number

end SealedGraph.Json
