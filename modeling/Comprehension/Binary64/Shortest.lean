import Comprehension.Binary64.Nearest

/-! # The fewest digits that read back

A double stands for all numbers that round to it. `Binary64.shortest` finds a decimal with as few
digits as possible among them: for one digit, two digits, and so on, it looks at the two
neighbours of the double on the grid of decimals with that many digits, and takes the first grid on
which a neighbour rounds to the double. Of two such neighbours the nearer is taken; for two equally
near ones there is a choice, `Tie`. Seventeen digits always suffice. -/
namespace Comprehension

/-- A decimal `digits · 10 ^ exponent`. -/
structure Decimal where
  digits : Nat
  exponent : Int
deriving DecidableEq, Repr

namespace Decimal

/-- Moves zeros at the end of the digits into the exponent, at most `fuel` of them. -/
def stripZeros : (fuel : Nat) → Decimal → Decimal
  | 0, d => d
  | fuel + 1, d =>
    if d.digits ≠ 0 ∧ d.digits % 10 = 0 then stripZeros fuel ⟨d.digits / 10, d.exponent + 1⟩ else d

/-- A decimal as a fraction. -/
def ratio (d : Decimal) : Nat × Nat :=
  if 0 ≤ d.exponent then (d.digits * Nat.pow 10 d.exponent.toNat, 1)
  else (d.digits, Nat.pow 10 (-d.exponent).toNat)

end Decimal

/-- Which of two equally near decimals is taken: the larger, or the one with an even last digit. -/
inductive Tie where
  | up
  | even
deriving DecidableEq, Repr

/-- The nearer of `below` and `below + 1`, when `rest / unit` is what is above `below`. -/
def Tie.nearer (tie : Tie) (below rest unit : Nat) : Nat :=
  if 2 * rest < unit then below
  else if unit < 2 * rest then below + 1
  else
    match tie with
    | .up => below + 1
    | .even => if below % 2 = 0 then below else below + 1

/-- How many decimal digits a number has; zero has one. -/
def digitCount (n : Nat) : Nat := (Nat.toDigits 10 n).length

namespace Binary64

/-- How many zeros follow the point of a fraction below one, searched up to `fuel`. -/
def leadingZeros (num den : Nat) : (fuel : Nat) → Nat
  | 0 => 0
  | fuel + 1 => if num * 10 < den then leadingZeros (num * 10) den fuel + 1 else 0

/-- The position of the first digit of a fraction: how many digits stand before the point, or minus
the number of zeros after it. -/
def decimalPosition (num den : Nat) : Int :=
  if den ≤ num then digitCount (num / den) else -(leadingZeros num den 400 : Int)

/-- Whether the decimal reads back as the given double. -/
def readsAs (x : Binary64) (d : Decimal) : Bool :=
  let (num, den) := d.ratio
  (nearest false num den).unsigned == x.unsigned

/-- The neighbour on the grid of `10 ^ exponent` that reads back as the double, if one does. -/
def onGrid (x : Binary64) (tie : Tie) (exponent : Int) : Option Decimal :=
  let (num, den) := x.ratio
  let (unitNum, unitDen) := Decimal.ratio ⟨1, exponent⟩
  let unit := den * unitNum
  let below := num * unitDen / unit
  let low : Decimal := ⟨below, exponent⟩
  let high : Decimal := ⟨below + 1, exponent⟩
  match x.readsAs low, x.readsAs high with
  | true, true => some ⟨tie.nearer below (num * unitDen % unit) unit, exponent⟩
  | true, false => some low
  | false, true => some high
  | false, false => none

/-- The first decimal found with `digits`, `digits + 1`, … digits, on at most `fuel` grids. -/
def firstOnGrids (x : Binary64) (tie : Tie) (position : Int) (digits : Nat) :
    (fuel : Nat) → Decimal
  | 0 => ⟨0, 0⟩
  | fuel + 1 =>
    match x.onGrid tie (position - digits) with
    | some d => d
    | none => firstOnGrids x tie position (digits + 1) fuel

/-- The decimal with the fewest digits that reads back as the magnitude of a finite double. -/
def shortest (x : Binary64) (tie : Tie) : Decimal :=
  if x.isZero then ⟨0, 0⟩
  else
    let (num, den) := x.ratio
    (firstOnGrids x tie (decimalPosition num den) 1 17).stripZeros 20

end Binary64

end Comprehension
