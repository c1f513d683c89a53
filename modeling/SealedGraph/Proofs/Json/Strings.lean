import SealedGraph.Json.Parser
import SealedGraph.Json.Printer

/-!
# Strings read back from their texts

Every character of a string is written as one piece: itself, an escape of one
letter, or a 16-bit unit.  A string's text ends at its own closing quote,
whatever stands after it.

## Main results

* `readPieces_renderChar`: a written character is read as one piece.
* `readString_render`: a written string is read as that string.
-/

namespace SealedGraph.Json

/-- The piece as which a character is read back: control characters without an
escape of their own are written as units. -/
def pieceOf (c : Char) : Piece :=
  if c.toNat < 32 ∧ c ∉ ['\x08', '\x0c', '\n', '\r', '\t'] then .unit c.toNat
    else .char c

private theorem unit?_of_lt : ∀ n < 32,
    unit? '0' '0' (Nat.digitChar (n / 16)) (Nat.digitChar (n % 16)) =
      some n := by
  decide

theorem readPieces_escaped {e c : Char} (hLetter : e ≠ 'u')
    (hEscaped : escaped? e = some c) (cs : List Char) :
    readPieces ('\\' :: e :: cs) =
      (readPieces cs).map fun found => (.char c :: found.1, found.2) := by
  rw [readPieces, hEscaped]
  · cases readPieces cs <;> rfl
  · intro _ _ _ _ _ h _
    exact hLetter h

theorem readPieces_unit {a b c d : Char} {value : Nat}
    (hUnit : unit? a b c d = some value) (cs : List Char) :
    readPieces ('\\' :: 'u' :: a :: b :: c :: d :: cs) =
      (readPieces cs).map fun found => (.unit value :: found.1, found.2) := by
  rw [readPieces, hUnit]
  cases readPieces cs <;> rfl

theorem readPieces_plain {c : Char} (hQuote : c ≠ '"') (hBackslash : c ≠ '\\')
    (hControl : ¬ c.toNat < 32) (cs : List Char) :
    readPieces (c :: cs) = (readPieces cs).map fun found =>
      (.char c :: found.1, found.2) := by
  have hPlain : ¬ (c.toNat < 32 ∨ c = '\\') :=
    fun h => h.elim hControl hBackslash
  rw [readPieces, if_neg hPlain]
  · cases readPieces cs <;> rfl
  · exact hQuote
  · exact fun _ _ _ _ _ h _ => hBackslash h
  · exact fun _ _ h _ => hBackslash h

theorem readPieces_renderChar (c : Char) (cs : List Char) :
    readPieces (renderChar c ++ cs) =
      (readPieces cs).map fun found => (pieceOf c :: found.1, found.2) := by
  unfold renderChar
  split
  · exact readPieces_escaped (by decide) rfl cs
  · exact readPieces_escaped (by decide) rfl cs
  · exact readPieces_escaped (by decide) rfl cs
  · exact readPieces_escaped (by decide) rfl cs
  · exact readPieces_escaped (by decide) rfl cs
  · exact readPieces_escaped (by decide) rfl cs
  · exact readPieces_escaped (by decide) rfl cs
  · next hQuote hBackslash hb hf hn hr ht =>
    by_cases hControl : c.toNat < 32
    · have hLong : c ∉ ['\x08', '\x0c', '\n', '\r', '\t'] := by
        simp only [List.mem_cons, List.not_mem_nil, or_false, not_or]
        exact ⟨hb, hf, hn, hr, ht⟩
      rw [if_pos hControl, pieceOf, if_pos ⟨hControl, hLong⟩]
      exact readPieces_unit (unit?_of_lt c.toNat hControl) cs
    · rw [if_neg hControl, pieceOf, if_neg fun h => hControl h.1]
      exact readPieces_plain hQuote hBackslash hControl cs

theorem readPieces_flatMap_renderChar (cs rest : List Char) :
    readPieces (cs.flatMap renderChar ++ '"' :: rest) =
      some (cs.map pieceOf, rest) := by
  induction cs with
  | nil => simp [readPieces]
  | cons c cs ih =>
      rw [List.flatMap_cons, List.append_assoc, readPieces_renderChar, ih]
      rfl

theorem joinPieces_map_pieceOf (cs : List Char) :
    joinPieces none (cs.map pieceOf) = some cs := by
  induction cs with
  | nil => rfl
  | cons c cs ih =>
      rw [List.map_cons, pieceOf]
      by_cases hUnit : c.toNat < 32 ∧ c ∉ ['\x08', '\x0c', '\n', '\r', '\t']
      · have hHigh : ¬ (0xd800 ≤ c.toNat ∧ c.toNat < 0xdc00) := by omega
        have hLow : ¬ (0xdc00 ≤ c.toNat ∧ c.toNat < 0xe000) := by omega
        rw [if_pos hUnit, joinPieces, if_neg hHigh, if_neg hLow, ih,
          Char.ofNat_toNat]
        rfl
      · rw [if_neg hUnit, joinPieces, ih]
        rfl

theorem readString_render (text : String) (rest : List Char) :
    readString (text.toList.flatMap renderChar ++ '"' :: rest) =
      some (some text, rest) := by
  rw [readString, readPieces_flatMap_renderChar]
  simp [joinPieces_map_pieceOf]

end SealedGraph.Json
