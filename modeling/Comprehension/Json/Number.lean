import Comprehension.Binary64.Shortest
import Comprehension.Binary64.Text
import Comprehension.Json.Basic

/-! # Numbers in JSON text

A number without fraction and exponent is a whole number if it fits into 64 bits, signed or
unsigned; a zero with a sign does not count as one. Every other number becomes a double in two
roundings: the leading digits, as many as fit into 64 bits, are rounded to a double, which is then
multiplied or divided by the double nearest to a power of ten. Doubles are written with the fewest
digits that read back, an even last digit breaking ties, and with an exponent only for very large
and very small ones. Because of the two roundings not every double survives writing and reading. -/
namespace Comprehension

/-- Digits taken while the number they form fits into 64 bits, continuing from `start`; also how
many digits are left over. -/
def takeDigits (start : Nat) : List Char → Nat × Nat
  | [] => (start, 0)
  | c :: cs =>
    let next := digitsValue start [c]
    if next < Nat.pow 2 64 then takeDigits next cs else (start, cs.length + 1)

namespace Binary64

/-- The double nearest to a power of ten. -/
def powerOfTen (n : Nat) : Binary64 := ofDecimal false 1 n

/-- A double times a power of ten, the power taken in steps of at most `10 ^ 308`. There is no
result if it would be infinite. -/
def scaleByTen (x : Binary64) (exponent : Int) : (fuel : Nat) → Option Binary64
  | 0 => some x
  | fuel + 1 =>
    if exponent.natAbs ≤ 308 then
      if 0 ≤ exponent then
        let y := x.mul (powerOfTen exponent.toNat)
        if y.isFinite then some y else none
      else some (x.div (powerOfTen exponent.natAbs))
    else if x.isZero then some x
    else if 0 ≤ exponent then none
    else scaleByTen (x.div (powerOfTen 308)) (exponent + 308) fuel

/-- The double read from the digits before and after the point and an exponent. -/
def ofNumeral (negative : Bool) (whole fraction : List Char) (exponent : Int) : Option Binary64 :=
  let (n, dropped) := takeDigits 0 whole
  let (n, unread) := takeDigits n fraction
  let shift : Int := dropped + exponent - (fraction.length - unread : Nat)
  -- Three steps of `10 ^ 308` turn everything into zero.
  (scaleByTen (ofInt n) shift 5).map fun x => ofParts negative x.unsigned

/-- The text of a finite double in JSON. A whole number keeps `.0`. -/
def jsonText (x : Binary64) : String :=
  let d := x.shortest .even
  let digits := Nat.toDigits 10 d.digits
  let position : Int := digits.length + d.exponent
  let sign := if x.negative then "-" else ""
  if x.isZero then sign ++ "0.0"
  else if 0 ≤ d.exponent ∧ position ≤ 16 then sign ++ d.positional ++ ".0"
  else if -5 < position ∧ position ≤ 16 then sign ++ d.positional
  else
    let mantissa :=
      match digits with
      | [c] => String.singleton c
      | c :: cs => String.singleton c ++ "." ++ String.ofList cs
      | [] => ""
    sign ++ mantissa ++ "e" ++ toString (position - 1)

end Binary64

namespace Json

/-- The value of a number in JSON text. -/
def ofNumeral (negative : Bool) (whole fraction : List Char) (exponent : Option Int) : Json :=
  let n := digitsValue 0 whole
  let asDouble :=
    match Binary64.ofNumeral negative whole fraction (exponent.getD 0) with
    | some x => .real x
    | none => .unusable
  match fraction, exponent with
  | [], none =>
    if negative then
      if 0 < n ∧ n ≤ Nat.pow 2 63 then .integer (-n) else asDouble
    else
      if n < Nat.pow 2 64 then .integer n else asDouble
  | _, _ => asDouble

end Json

end Comprehension
