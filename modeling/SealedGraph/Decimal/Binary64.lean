/-!
# Finite binary64 numbers and the decimals that denote them

A finite double-precision number is a sign and the rank of its magnitude: zero
has rank 0, the least positive number rank 1, and so on upwards.  A decimal
denotes the number nearest to it; of two equally near numbers, the one with
the even significand.  All of it is exact arithmetic on natural numbers.
-/

namespace SealedGraph

/-- The number `coefficient * 10 ^ exponent`. -/
structure Decimal where
  coefficient : Nat
  exponent : Int
deriving DecidableEq, Repr

namespace Decimal

/-- Moves trailing zeros of the coefficient into the exponent, at most `fuel` of
them. -/
def reduceUpTo : (fuel : Nat) → Decimal → Decimal
  | 0, d => d
  | fuel + 1, d =>
      if d.coefficient ≠ 0 ∧ d.coefficient % 10 = 0 then
        reduceUpTo fuel ⟨d.coefficient / 10, d.exponent + 1⟩
      else d

/-- The same number with no trailing zero in its coefficient; zero has the
exponent 0. -/
def reduce (d : Decimal) : Decimal :=
  if d.coefficient = 0 then ⟨0, 0⟩ else reduceUpTo d.coefficient d

end Decimal

/-- How many magnitudes there are from a power of two up to the next: two to the
52nd. -/
def Binary64.binade : Nat := 4503599627370496

/-- A finite double-precision number. -/
structure Binary64 where
  /-- The sign, which zero has too. -/
  negative : Bool
  /-- How many non-negative numbers are smaller than the magnitude. -/
  rank : Nat
  rank_lt : rank < 2047 * Binary64.binade
deriving DecidableEq

namespace Binary64

/-- Zero with a sign. -/
def zero (negative : Bool) : Binary64 := ⟨negative, 0, by decide⟩

/-- The power of two, above the least one, by which the significand is
scaled. -/
def scale (x : Binary64) : Nat := x.rank / binade - 1

/-- The integer `m` with magnitude `m * 2 ^ scale * 2 ^ (-1074)`. -/
def significand (x : Binary64) : Nat := x.rank - x.scale * binade

/-- The integer nearest to a quotient, the even one of two equally near. -/
def roundQuotient (num den : Nat) : Nat :=
  let low := num / den
  let doubled := 2 * (num % den)
  if doubled < den then low
  else if den < doubled then low + 1
  else low + low % 2

/-- The rank of the magnitude nearest to `num / den`, counted on when there is
none so large. -/
def rankOf (num den : Nat) : Nat :=
  let units := num * Nat.pow 2 1074
  let scale := Nat.log2 (units / den) - 52
  scale * binade + roundQuotient units (den * Nat.pow 2 scale)

/-- The rank of the magnitude nearest to a positive decimal.  Decimals from
`10 ^ 401` on are beyond every number, and those below `10 ^ (-400)` nearest to
zero; their powers are not computed. -/
def rankOfDecimal (d : Decimal) : Option Nat :=
  if 400 < d.exponent then none
  else if d.exponent + Nat.log2 d.coefficient + 1 < -400 then some 0
  else if 0 ≤ d.exponent
    then some (rankOf (d.coefficient * Nat.pow 10 d.exponent.toNat) 1)
  else some (rankOf d.coefficient (Nat.pow 10 (-d.exponent).toNat))

/-- The number nearest to a decimal, with the given sign; none if the decimal is
too large. -/
def ofDecimal (negative : Bool) (d : Decimal) : Option Binary64 :=
  if d.coefficient = 0 then some (zero negative)
  else
    match rankOfDecimal d.reduce with
    | none => none
    | some rank =>
        if h : rank < 2047 * binade then some ⟨negative, rank, h⟩ else none

/-- Whether two numbers are equal as numbers: the two zeros are. -/
def same (x y : Binary64) : Bool :=
  x.rank == y.rank && (x.negative == y.negative || x.rank == 0)

end Binary64
end SealedGraph
