/-! # Doubles

A double is its 64 bits: a sign, eleven bits of exponent and 52 bits of fraction. Keeping the bits
makes every question about a double a question about natural numbers. Two doubles that differ in
their bits can be equal as numbers (`0` and `-0`), and a NaN is not equal even to itself, so
`Binary64.equal` is not equality of bits. -/
namespace Comprehension

/-- A double, by its bits. -/
structure Binary64 where
  bits : UInt64
deriving DecidableEq

namespace Binary64

/-- The sign bit. -/
def negative (x : Binary64) : Bool := Nat.pow 2 63 ≤ x.bits.toNat

/-- The bits without the sign, as a number. Larger magnitudes have larger numbers here. -/
def unsigned (x : Binary64) : Nat := x.bits.toNat % Nat.pow 2 63

/-- The number of the infinite magnitude among `unsigned` numbers; those above it are NaNs. -/
def infiniteBits : Nat := 2047 * Nat.pow 2 52

def isNaN (x : Binary64) : Bool := infiniteBits < x.unsigned

def isFinite (x : Binary64) : Bool := x.unsigned < infiniteBits

def isZero (x : Binary64) : Bool := x.unsigned == 0

/-- Equality of numbers: a NaN equals nothing, and the two zeros are equal. -/
def equal (x y : Binary64) : Bool :=
  !x.isNaN && !y.isNaN && (x.bits == y.bits || (x.isZero && y.isZero))

/-- A double from its sign and its `unsigned` number, which must be below `2 ^ 63`. -/
def ofParts (negative : Bool) (unsigned : Nat) : Binary64 :=
  ⟨UInt64.ofNat ((if negative then Nat.pow 2 63 else 0) + unsigned)⟩

def infinity (negative : Bool) : Binary64 := ofParts negative infiniteBits

def nan : Binary64 := ofParts false (infiniteBits + Nat.pow 2 51)

/-- The magnitude of a finite double as `m · 2 ^ (e - 1074)`, given as `(m, e)`. -/
def magnitude (x : Binary64) : Nat × Nat :=
  let exponent := x.unsigned / Nat.pow 2 52
  let fraction := x.unsigned % Nat.pow 2 52
  if exponent = 0 then (fraction, 0) else (Nat.pow 2 52 + fraction, exponent - 1)

end Binary64

end Comprehension
