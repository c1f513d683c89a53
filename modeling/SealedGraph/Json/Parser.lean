import SealedGraph.Decimal.Scaling
import SealedGraph.Hex
import SealedGraph.Json.Source

/-!
# Reading JSON text

The grammar is the strict one: blanks are space, tab, line feed and carriage
return, and nothing may follow the value but blanks.  A text is read into a
source, in which numbers beyond every double, unpaired surrogates and
containers nested deeper than the limit are holes.

## Main results

* `readValue_skipBlanks`: blanks before a value change nothing.
-/

namespace SealedGraph.Json

/-- The blanks that may stand between tokens. -/
def isBlank (c : Char) : Bool := c = ' ' || c = '\t' || c = '\n' || c = '\r'

/-- Leaves out blanks. -/
def skipBlanks (cs : List Char) : List Char := cs.dropWhile isBlank

theorem skipBlanks_cons {c : Char} (hc : isBlank c = false) (cs : List Char) :
    skipBlanks (c :: cs) = c :: cs :=
  List.dropWhile_cons_of_neg (by simp [hc])

theorem skipBlanks_skipBlanks (cs : List Char) :
    skipBlanks (skipBlanks cs) = skipBlanks cs := by
  induction cs with
  | nil => rfl
  | cons c cs ih =>
      by_cases hBlank : isBlank c = true
      · have hSkip : skipBlanks (c :: cs) = skipBlanks cs :=
          List.dropWhile_cons_of_pos hBlank
        rw [hSkip, ih]
      · have hStay := skipBlanks_cons (Bool.eq_false_iff.mpr hBlank) cs
        rw [hStay, hStay]

/-! ## Numbers -/

/-- The parts of a number's text. -/
structure NumberText where
  negative : Bool
  whole : List Char
  /-- The digits after the point, if there is one. -/
  fraction : Option (List Char)
  /-- Sign and digits of the exponent, if there is one. -/
  exponent : Option (Bool × List Char)

namespace NumberText

/-- Takes up digits after a significand as long as it stays within 64 bits, and
gives the digits from the first one on that it has no place for. -/
def takeUp : (significand : Nat) → List Char → Nat × List Char
  | significand, [] => (significand, [])
  | significand, c :: cs =>
      let next := Nat.ofDigitChars 10 [c] significand
      if next < 18446744073709551616 then takeUp next cs
      else (significand, c :: cs)

/-- The power of ten that the exponent gives. -/
def shift (text : NumberText) : Int :=
  match text.exponent with
  | none => 0
  | some (true, digits) => -(Nat.ofDigitChars 10 digits 0 : Int)
  | some (false, digits) => Nat.ofDigitChars 10 digits 0

/-- The decimal that the magnitude is taken for.  A digit before the point that
there is no place for counts as a zero, and so does every digit after it; after
the point the first such digit ends the fraction. -/
def taken (text : NumberText) : Decimal :=
  let fraction := text.fraction.getD []
  let (whole, zeros) := takeUp 0 text.whole
  let (significand, ignored) := takeUp whole fraction
  let places : Int := fraction.length - ignored.length
  ⟨significand, text.shift + zeros.length - places⟩

/-- The float that a number's text is taken for; none if it is beyond every
double. -/
def float? (text : NumberText) : Option Number :=
  (Binary64.ofParts? text.negative text.taken).map .float

/-- The number that a text denotes: an integer if it has neither fraction nor
exponent, fits 64 bits and is not minus zero; else a float. -/
def number? (text : NumberText) : Option Number :=
  match text.fraction, text.exponent with
  | none, none =>
      let magnitude := Nat.ofDigitChars 10 text.whole 0
      if text.negative then
        if h : 0 < magnitude ∧ magnitude ≤ 9223372036854775808 then
          some (.integer ⟨-(magnitude : Int), by omega, by omega⟩)
        else text.float?
      else if h : magnitude < 18446744073709551616
        then some (.integer ⟨magnitude, by omega, by omega⟩)
      else text.float?
  | _, _ => text.float?

end NumberText

/-- Reads one digit or more. -/
def readDigits (cs : List Char) : Option (List Char × List Char) :=
  match cs.takeWhile Char.isDigit with
  | [] => none
  | digits => some (digits, cs.dropWhile Char.isDigit)

/-- Reads the digits before the point: no zero stands before other digits. -/
def readWhole (cs : List Char) : Option (List Char × List Char) := do
  let (digits, rest) ← readDigits cs
  match digits with
  | '0' :: _ :: _ => none
  | _ => some (digits, rest)

/-- Reads a point and digits, if a point is next. -/
def readFraction : List Char → Option (Option (List Char) × List Char)
  | '.' :: cs => (readDigits cs).map fun (digits, rest) => (some digits, rest)
  | cs => some (none, cs)

/-- Reads an exponent, if one is next. -/
def readExponent (cs : List Char) :
    Option (Option (Bool × List Char) × List Char) :=
  let signed : List Char → Option (Option (Bool × List Char) × List Char)
    | '-' :: cs =>
        (readDigits cs).map fun (digits, rest) => (some (true, digits), rest)
    | '+' :: cs =>
        (readDigits cs).map fun (digits, rest) => (some (false, digits), rest)
    | cs =>
        (readDigits cs).map fun (digits, rest) => (some (false, digits), rest)
  match cs with
  | 'e' :: cs => signed cs
  | 'E' :: cs => signed cs
  | cs => some (none, cs)

/-- Reads the text of a number after its sign. -/
def readMagnitude (negative : Bool) (cs : List Char) :
    Option (NumberText × List Char) := do
  let (whole, cs) ← readWhole cs
  let (fraction, cs) ← readFraction cs
  let (exponent, cs) ← readExponent cs
  some (⟨negative, whole, fraction, exponent⟩, cs)

/-- Reads the text of a number. -/
def readNumber : List Char → Option (NumberText × List Char)
  | '-' :: cs => readMagnitude true cs
  | cs => readMagnitude false cs

/-! ## Strings -/

/-- A piece of a string: a character, or an escaped 16-bit unit. -/
inductive Piece where
  | char (c : Char)
  | unit (value : Nat)

/-- The character of an escape of one letter. -/
def escaped? : Char → Option Char
  | '"' => some '"'
  | '\\' => some '\\'
  | '/' => some '/'
  | 'b' => some '\x08'
  | 'f' => some '\x0c'
  | 'n' => some '\n'
  | 'r' => some '\r'
  | 't' => some '\t'
  | _ => none

/-- The value of four hexadecimal digits. -/
def unit? (a b c d : Char) : Option Nat := do
  let a ← Hex.value? a
  let b ← Hex.value? b
  let c ← Hex.value? c
  let d ← Hex.value? d
  some (((a * 16 + b) * 16 + c) * 16 + d)

/-- Reads the pieces of a string up to its closing quote.  Control characters
must be escaped. -/
def readPieces : List Char → Option (List Piece × List Char)
  | [] => none
  | '"' :: cs => some ([], cs)
  | '\\' :: 'u' :: a :: b :: c :: d :: cs => do
      let value ← unit? a b c d
      let (pieces, rest) ← readPieces cs
      some (.unit value :: pieces, rest)
  | '\\' :: e :: cs => do
      let c ← escaped? e
      let (pieces, rest) ← readPieces cs
      some (.char c :: pieces, rest)
  | c :: cs =>
      if c.toNat < 32 ∨ c = '\\' then none
      else do
        let (pieces, rest) ← readPieces cs
        some (.char c :: pieces, rest)

/-- The characters of pieces; `high` is the first half of a surrogate pair that
waits for its second half.  Halves without their counterpart denote no
characters. -/
def joinPieces : (high : Option Nat) → List Piece → Option (List Char)
  | none, [] => some []
  | some _, [] => none
  | none, .char c :: rest => (joinPieces none rest).map (c :: ·)
  | some _, .char _ :: _ => none
  | none, .unit value :: rest =>
      if 0xd800 ≤ value ∧ value < 0xdc00 then joinPieces (some value) rest
      else if 0xdc00 ≤ value ∧ value < 0xe000 then none
      else (joinPieces none rest).map (Char.ofNat value :: ·)
  | some high, .unit value :: rest =>
      if 0xdc00 ≤ value ∧ value < 0xe000 then
        (joinPieces none rest).map
          (Char.ofNat (0x10000 + (high - 0xd800) * 0x400 + (value - 0xdc00)) ::
            ·)
      else none

/-- Reads a string after its opening quote; its text is a hole if a surrogate is
unpaired. -/
def readString (cs : List Char) : Option (Option String × List Char) :=
  (readPieces cs).map fun (pieces, rest) =>
    ((joinPieces none pieces).map String.ofList, rest)

/-! ## Values -/

/-- A container that is a hole when there is no room for it. -/
def nest (room : Nat) (source : Source) : Source :=
  if room = 0 then .hole else source

mutual
/-- Reads a value; `room` says how many containers may still stand inside each
other. -/
def readValue : (fuel room : Nat) → List Char → Option (Source × List Char)
  | 0, _, _ => none
  | fuel + 1, room, cs =>
      match skipBlanks cs with
      | 'n' :: 'u' :: 'l' :: 'l' :: rest => some (.null, rest)
      | 't' :: 'r' :: 'u' :: 'e' :: rest => some (.bool true, rest)
      | 'f' :: 'a' :: 'l' :: 's' :: 'e' :: rest => some (.bool false, rest)
      | '"' :: rest =>
          (readString rest).map fun (text?, rest) =>
            ((text?.map .string).getD .hole, rest)
      | '[' :: rest =>
          match skipBlanks rest with
          | ']' :: rest => some (nest room (.array []), rest)
          | rest =>
              (readItems fuel (room - 1) rest).map fun (items, rest) =>
                (nest room (.array items), rest)
      | '{' :: rest =>
          match skipBlanks rest with
          | '}' :: rest => some (nest room (.object []), rest)
          | rest =>
              (readMembers fuel (room - 1) rest).map fun (members, rest) =>
                (nest room (.object members), rest)
      | rest =>
          (readNumber rest).map fun (text, rest) =>
            ((text.number?.map .number).getD .hole, rest)

/-- Reads one item or more, separated by commas, and the closing bracket. -/
def readItems : (fuel room : Nat) → List Char → Option (List Source × List Char)
  | 0, _, _ => none
  | fuel + 1, room, cs => do
      let (item, cs) ← readValue fuel room cs
      match skipBlanks cs with
      | ',' :: cs => do
          let (items, rest) ← readItems fuel room cs
          some (item :: items, rest)
      | ']' :: rest => some ([item], rest)
      | _ => none

/-- Reads one member or more, separated by commas, and the closing brace. -/
def readMembers : (fuel room : Nat) → List Char →
    Option (List (Option String × Source) × List Char)
  | 0, _, _ => none
  | fuel + 1, room, cs =>
      match skipBlanks cs with
      | '"' :: cs => do
          let (name, cs) ← readString cs
          match skipBlanks cs with
          | ':' :: cs => do
              let (item, cs) ← readValue fuel room cs
              match skipBlanks cs with
              | ',' :: cs => do
                  let (members, rest) ← readMembers fuel room cs
                  some ((name, item) :: members, rest)
              | '}' :: rest => some ([(name, item)], rest)
              | _ => none
          | _ => none
      | _ => none
end

theorem readValue_skipBlanks (fuel room : Nat) (cs : List Char) :
    readValue fuel room (skipBlanks cs) = readValue fuel room cs := by
  cases fuel with
  | zero => rfl
  | succ fuel => rw [readValue, readValue, skipBlanks_skipBlanks]

/-- Reads a whole text in which at most `room` containers stand inside each
other.  Every two steps of the reader take up a character, which bounds their
number. -/
def Source.parse? (room : Nat) (text : String) : Option Source :=
  let cs := text.toList
  match readValue (2 * cs.length + 2) room cs with
  | some (source, rest) =>
      if (skipBlanks rest).isEmpty then some source else none
  | none => none

/-- How deep a text may nest its containers. -/
def maxDepth : Nat := 127

/-- Reads a text under a shape. -/
def parseAs? (shape : Shape) (text : String) : Option Json :=
  (Source.parse? maxDepth text).bind shape.read?

/-- Reads a text as a value. -/
def parse? (text : String) : Option Json := parseAs? .any text

/-- Reads a text in UTF-8. -/
def parseBytes? (bytes : Bytes) : Option Json :=
  (Bytes.toText? bytes).bind parse?

end SealedGraph.Json
