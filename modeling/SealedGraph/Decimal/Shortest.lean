import SealedGraph.Decimal.Binary64

/-!
# The shortest decimal of a binary64 number

A number is written with as few digits as read back as that number, and of two
such decimals with equally many digits the nearer one is taken; on a tie the
one with the even last digit.  The layout says where the decimal point or an
exponent goes.

## Main results

* `ofDecimal_shortest`: what is written reads back, once the exact decimal does.
-/

namespace SealedGraph

namespace Binary64

/-- The exact value of a magnitude as a decimal. -/
def exact (x : Binary64) : Decimal :=
  if 1074 ≤ x.scale then ⟨x.significand * Nat.pow 2 (x.scale - 1074), 0⟩
  else ⟨x.significand * Nat.pow 5 (1074 - x.scale),
    -((1074 - x.scale : Nat) : Int)⟩

/-- The two neighbours of a decimal among those of `digits` digits, the nearer
one first; the decimal itself when it has no more digits. -/
def neighbours (d : Decimal) (digits : Nat) : List Decimal :=
  let surplus := (Nat.toDigits 10 d.coefficient).length - digits
  if surplus = 0 then [d]
  else
    let unit := Nat.pow 10 surplus
    let low := d.coefficient / unit
    let doubled := 2 * (d.coefficient % unit)
    let below : Decimal := ⟨low, d.exponent + surplus⟩
    let above : Decimal := ⟨low + 1, d.exponent + surplus⟩
    if doubled < unit ∨ (doubled = unit ∧ low % 2 = 0) then [below, above]
      else [above, below]

/-- The shortest decimal that reads back as the number; seventeen digits always
suffice, and the exact value stands in should none be found. -/
def shortest (x : Binary64) : Decimal :=
  let exact := x.exact
  let found := (List.range 17).findSome? fun digits =>
    (neighbours exact (digits + 1)).find? fun d =>
      ofDecimal x.negative d = some x
  found.getD exact

theorem ofDecimal_shortest (x : Binary64)
    (hExact : ofDecimal x.negative x.exact = some x) :
    ofDecimal x.negative x.shortest = some x := by
  unfold shortest
  simp only
  cases hFound : (List.range 17).findSome? fun digits =>
      (neighbours x.exact (digits + 1)).find? fun d => ofDecimal x.negative d =
        some x with
  | none => simpa using hExact
  | some d =>
      obtain ⟨digits, _, hDigits⟩ := List.exists_of_findSome?_eq_some hFound
      simpa using List.find?_some hDigits

end Binary64

/-- Where a decimal is written without an exponent: the least and the greatest
power of ten that its first digit may stand for. -/
structure Layout where
  least : Int
  greatest : Int

namespace Layout

/-- The text of a decimal.  Without an exponent it always has a fraction; with
one it has a fraction when there is more than one digit, and the exponent always
has a sign. -/
def write (layout : Layout) (d : Decimal) : List Char :=
  let digits := Nat.toDigits 10 d.coefficient
  let power : Int := d.exponent + digits.length - 1
  if layout.least ≤ power ∧ power ≤ layout.greatest then
    if 0 ≤ d.exponent
      then digits ++ (List.replicate d.exponent.toNat '0' ++ ['.', '0'])
    else if 0 ≤ power then
      digits.take (power.toNat + 1) ++ '.' :: digits.drop (power.toNat + 1)
    else '0' :: '.' :: (List.replicate ((-power).toNat - 1) '0' ++ digits)
  else
    digits.take 1 ++
      ((if digits.length = 1 then [] else '.' :: digits.drop 1) ++
      'e' :: (if power < 0 then '-' else '+') :: Nat.toDigits 10 power.natAbs)

end Layout
end SealedGraph
