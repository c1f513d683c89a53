import SealedGraph.Decimal.Binary64

/-!
# Decimals rounded in two steps

A reader of numbers does not search for the double nearest to a decimal.  It
rounds the coefficient to a double, multiplies or divides that one by the
double nearest to a power of ten, and rounds the outcome once more.  The double
it arrives at may be a neighbour of the nearest one: `12e30` becomes the double
that is written `1.2000000000000001e+31`.

No power of ten beyond the 308th is a double.  A smaller decimal is therefore
divided by that power until the rest of its exponent is at hand.
-/

namespace SealedGraph.Binary64

/-- How many times the least positive number a magnitude is. -/
def units (x : Binary64) : Nat := x.significand * Nat.pow 2 x.scale

/-- The number nearest to a quotient, with the given sign; none if the quotient
is beyond every number. -/
def nearest? (negative : Bool) (num den : Nat) : Option Binary64 :=
  if h : rankOf num den < 2047 * binade then
    some ⟨negative, rankOf num den, h⟩
  else none

/-- The greatest power of ten that a number is near to. -/
def greatestPower : Nat := 308

/-- The number nearest to a power of ten. -/
def powerOfTen? (power : Nat) : Option Binary64 := ofDecimal false ⟨1, power⟩

/-- A magnitude times another one. -/
def times? (x y : Binary64) : Option Binary64 :=
  nearest? x.negative (x.units * y.units) (Nat.pow 2 (2 * 1074))

/-- A magnitude divided by another one. -/
def over? (x y : Binary64) : Option Binary64 :=
  nearest? x.negative x.units y.units

/-- Multiplies by a power of ten that is at hand, or divides by one. -/
def scaleOnce? (x : Binary64) (exponent : Int) : Option Binary64 := do
  let power ← powerOfTen? exponent.natAbs
  if 0 ≤ exponent then x.times? power else x.over? power

/-- Multiplies by a power of ten in at most `fuel` steps before the last one.
Zero stays zero, whatever the power. -/
def scaleUpTo? : (fuel : Nat) → Binary64 → Int → Option Binary64
  | 0, x, exponent => x.scaleOnce? exponent
  | fuel + 1, x, exponent =>
      if exponent.natAbs ≤ greatestPower then x.scaleOnce? exponent
      else if x.rank = 0 then some x
      else if 0 ≤ exponent then none
      else do
        let power ← powerOfTen? greatestPower
        let quotient ← x.over? power
        scaleUpTo? fuel quotient (exponent + greatestPower)

/-- The number that a decimal is taken for: its coefficient, rounded, times its
power of ten, rounded again; none if that is beyond every number. -/
def ofParts? (negative : Bool) (d : Decimal) : Option Binary64 := do
  let coefficient ← nearest? negative d.coefficient 1
  coefficient.scaleUpTo? d.exponent.natAbs d.exponent

end SealedGraph.Binary64
