import Comprehension.Binary64.Basic

/-! # The double nearest to a number

`nearest negative num den` is the double nearest to `num / den`. A number halfway between two
doubles goes to the one with the even fraction, and a number beyond the largest double is infinite.
Products and quotients of doubles, and doubles written in decimal, are all roundings of an exact
fraction. -/
namespace Comprehension

/-- A quotient rounded to the nearest whole number; a half goes to the even neighbour. -/
def roundHalfEven (num den : Nat) : Nat :=
  let q := num / den
  let r := num % den
  if 2 * r < den then q
  else if den < 2 * r then q + 1
  else q + q % 2

namespace Binary64

/-- The exponent, counted from the smallest one, at which `num / den` has 53 bits before the
point. A smaller fraction gets the smallest exponent. -/
def scaleOf (num den : Nat) : Nat :=
  -- `num / den` lies between `2 ^ (a - b - 1)` and `2 ^ (a - b + 1)`.
  let a := num.log2 + 1074
  let b := den.log2
  let guess := a - b - 52
  if 52 + b ≤ a then
    if num * Nat.pow 2 1074 < den * Nat.pow 2 (guess + 52) then guess - 1 else guess
  else 0

/-- The double nearest to `num / den`. -/
def nearest (negative : Bool) (num den : Nat) : Binary64 :=
  if num = 0 then ofParts negative 0
  else
    let e := scaleOf num den
    let m := roundHalfEven (num * Nat.pow 2 1074) (den * Nat.pow 2 e)
    ofParts negative (min infiniteBits (e * Nat.pow 2 52 + m))

/-- The double nearest to a whole number. -/
def ofInt (n : Int) : Binary64 := nearest (n < 0) n.natAbs 1

/-- The double nearest to `digits · 10 ^ exponent`. Exponents that are out of every double's range
are settled without computing the power. -/
def ofDecimal (negative : Bool) (digits : Nat) (exponent : Int) : Binary64 :=
  if digits = 0 then ofParts negative 0
  else if 400 < exponent then infinity negative
  else if exponent + (digits.log2 : Int) < -1200 then ofParts negative 0
  else if 0 ≤ exponent then nearest negative (digits * Nat.pow 10 exponent.toNat) 1
  else nearest negative digits (Nat.pow 10 (-exponent).toNat)

/-- The magnitude of a finite double as a fraction. -/
def ratio (x : Binary64) : Nat × Nat :=
  let (m, e) := x.magnitude
  (m * Nat.pow 2 e, Nat.pow 2 1074)

/-- The product of two finite doubles. -/
def mul (x y : Binary64) : Binary64 :=
  let (a, b) := x.ratio
  let (c, d) := y.ratio
  nearest (x.negative != y.negative) (a * c) (b * d)

/-- The quotient of two finite doubles, the second not zero. -/
def div (x y : Binary64) : Binary64 :=
  let (a, b) := x.ratio
  let (c, d) := y.ratio
  nearest (x.negative != y.negative) (a * d) (b * c)

end Binary64

end Comprehension
