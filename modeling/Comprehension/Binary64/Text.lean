import Comprehension.Binary64.Shortest

/-! # Doubles in decimal text

Doubles are written with the fewest digits that read back, the larger of two equally near decimals,
always positionally: no exponent, no point after a whole number, and a sign in front of a negative
zero. Reading takes a sign, digits with an optional point, and an optional exponent, and gives the
nearest double; infinities and NaN have names. -/
namespace Comprehension

/-- Decimal digits of a number. -/
def decimalText (n : Nat) : String := String.ofList (Nat.toDigits 10 n)

/-- A run of zeros. -/
def zeros (n : Nat) : String := String.ofList (List.replicate n '0')

/-- A decimal without an exponent. The point stands `-exponent` digits from the right. -/
def Decimal.positional (d : Decimal) : String :=
  let digits := Nat.toDigits 10 d.digits
  if 0 ≤ d.exponent then String.ofList digits ++ zeros d.exponent.toNat
  else
    let places := (-d.exponent).toNat
    if places < digits.length then
      String.ofList (digits.take (digits.length - places)) ++ "." ++
        String.ofList (digits.drop (digits.length - places))
    else "0." ++ zeros (places - digits.length) ++ String.ofList digits

/-- The value of a run of digits, continuing from `start`. -/
def digitsValue (start : Nat) (digits : List Char) : Nat :=
  digits.foldl (fun n c => 10 * n + (c.toNat - '0'.toNat)) start

namespace Binary64

/-- The written form of a double. -/
def text (x : Binary64) : String :=
  if x.isNaN then "NaN"
  else
    let sign := if x.negative then "-" else ""
    sign ++ if x.isFinite then (x.shortest .up).positional else "inf"

/-- Reads an exponent: `e` or `E`, a sign, at least one digit, and nothing more. -/
def readExponent : List Char → Option Int
  | [] => some 0
  | c :: rest =>
    if c = 'e' ∨ c = 'E' then
      let (negative, digits) :=
        match rest with
        | '-' :: ds => (true, ds)
        | '+' :: ds => (false, ds)
        | ds => (false, ds)
      if digits ≠ [] ∧ digits.all Char.isDigit then
        let n : Int := digitsValue 0 digits
        some (if negative then -n else n)
      else none
    else none

/-- Reads digits with an optional point and an optional exponent. -/
def readUnsigned (negative : Bool) (cs : List Char) : Option Binary64 :=
  let whole := cs.takeWhile Char.isDigit
  let rest := cs.dropWhile Char.isDigit
  let (fraction, rest) :=
    match rest with
    | '.' :: more => (more.takeWhile Char.isDigit, more.dropWhile Char.isDigit)
    | _ => ([], rest)
  if whole = [] ∧ fraction = [] then none
  else do
    let exponent ← readExponent rest
    some (ofDecimal negative (digitsValue (digitsValue 0 whole) fraction)
      (exponent - fraction.length))

/-- Reads a double written in decimal, or the name of a special one in either case. -/
def ofText? (s : String) : Option Binary64 :=
  let (negative, cs) :=
    match s.toList with
    | '-' :: cs => (true, cs)
    | '+' :: cs => (false, cs)
    | cs => (false, cs)
  let name := String.ofList (cs.map Char.toLower)
  if name = "nan" then some nan
  else if name = "inf" ∨ name = "infinity" then some (infinity negative)
  else readUnsigned negative cs

end Binary64

end Comprehension
