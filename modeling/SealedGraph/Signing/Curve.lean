/-!
# The group of secp256k1

Points of the curve `y² = x³ + 7` over the field of `fieldPrime` elements.
Multiples are computed in Jacobian coordinates: `(x, y, z)` stands for the
point `(x / z², y / z³)`, and `z = 0` for the point at infinity.  Field
elements are natural numbers below the prime.
-/

namespace SealedGraph.Curve

/-- The number of elements of the field. -/
def fieldPrime : Nat :=
  0xfffffffffffffffffffffffffffffffffffffffffffffffffffffffefffffc2f

/-- The number of points of the curve, the point at infinity included. -/
def order : Nat :=
  0xfffffffffffffffffffffffffffffffebaaedce6af48a03bbfd25e8cd0364141

/-- A power modulo `modulus`, for exponents below `2 ^ bits`. -/
def powerMod (modulus base : Nat) : (bits exponent : Nat) → Nat
  | 0, _ => 1
  | bits + 1, exponent =>
      let half := powerMod modulus base bits (exponent / 2)
      let square := half * half % modulus
      if exponent % 2 = 1 then square * base % modulus else square

/-- The inverse of a unit modulo a prime of 256 bits. -/
def inverseMod (prime value : Nat) : Nat := powerMod prime value 256 (prime - 2)

/-- The difference of two field elements. -/
def minus (a b : Nat) : Nat := (a + fieldPrime - b) % fieldPrime

/-- The product of two field elements. -/
def times (a b : Nat) : Nat := a * b % fieldPrime

/-- A point other than the point at infinity. -/
structure Point where
  x : Nat
  y : Nat
deriving DecidableEq

/-- A point in Jacobian coordinates. -/
structure Jacobian where
  x : Nat
  y : Nat
  z : Nat

/-- The point that all multiples are taken of. -/
def generator : Point :=
  ⟨0x79be667ef9dcbbac55a06295ce870b07029bfcdb2dce28d959f2815b16f81798,
    0x483ada7726a3c4655da4fbfc0e1108a8fd17b448a68554199c47d08ffb10d4b8⟩

namespace Jacobian

/-- The point at infinity. -/
def infinity : Jacobian := ⟨1, 1, 0⟩

def ofPoint (p : Point) : Jacobian := ⟨p.x, p.y, 1⟩

/-- The point with affine coordinates, unless it is the point at infinity. -/
def toPoint? (p : Jacobian) : Option Point :=
  if p.z = 0 then none
  else
    let inverse := inverseMod fieldPrime p.z
    let square := times inverse inverse
    some ⟨times p.x square, times p.y (times square inverse)⟩

/-- Twice a point. -/
def double (p : Jacobian) : Jacobian :=
  if p.z = 0 ∨ p.y = 0 then infinity
  else
    let xx := times p.x p.x
    let yy := times p.y p.y
    let yyyy := times yy yy
    let d := times 4 (times p.x yy)
    let e := times 3 xx
    let x := minus (times e e) (times 2 d)
    ⟨x, minus (times e (minus d x)) (times 8 yyyy), times 2 (times p.y p.z)⟩

/-- The sum of two points. -/
def add (p q : Jacobian) : Jacobian :=
  if p.z = 0 then q
  else if q.z = 0 then p
  else
    let pzz := times p.z p.z
    let qzz := times q.z q.z
    let u := times p.x qzz
    let s := times p.y (times qzz q.z)
    let h := minus (times q.x pzz) u
    let r := minus (times q.y (times pzz p.z)) s
    if h = 0 then if r = 0 then double p else infinity
    else
      let hh := times h h
      let hhh := times hh h
      let v := times u hh
      let x := minus (minus (times r r) hhh) (times 2 v)
      ⟨x, minus (times r (minus v x)) (times s hhh), times h (times p.z q.z)⟩

/-- The multiple of a point by a number below `2 ^ bits`. -/
def multiple (p : Jacobian) : (bits factor : Nat) → Jacobian
  | 0, _ => infinity
  | bits + 1, factor =>
      let twice := double (multiple p bits (factor / 2))
      if factor % 2 = 1 then add twice p else twice

end Jacobian

/-- The multiple of the generator by a number of 256 bits. -/
def multiple (factor : Nat) : Option Point :=
  ((Jacobian.ofPoint generator).multiple 256 factor).toPoint?

/-- The point with a given first coordinate whose second coordinate is odd or
even as asked. -/
def lift? (x : Nat) (odd : Bool) : Option Point :=
  let square := (times x (times x x) + 7) % fieldPrime
  let root := powerMod fieldPrime square 256 ((fieldPrime + 1) / 4)
  if times root root ≠ square then none
  else if (root % 2 = 1) = odd then some ⟨x, root⟩ else some ⟨x, minus 0 root⟩

/-- The sum of a multiple of the generator and a multiple of another point. -/
def combination (factor : Nat) (p : Point) (other : Nat) : Option Point :=
  (((Jacobian.ofPoint generator).multiple 256 factor).add
    ((Jacobian.ofPoint p).multiple 256 other)).toPoint?

end SealedGraph.Curve
