/-!
Double-precision numbers, kept as their 64 bits: one sign bit, eleven exponent bits and 52 bits
of fraction. A finite number is `significand * 2 ^ scale` with the sign put in front. Nothing here
rounds: comparisons are decided on the exact values.
-/
namespace HintCheck

/-- A double-precision number, by its bits. -/
structure Double where
  bits : UInt64
deriving DecidableEq, Repr

namespace Double

/-- The number is written with a minus sign; this also tells the two zeros apart. -/
def negative (x : Double) : Bool :=
  x.bits.toNat / Nat.pow 2 63 == 1

/-- The eleven exponent bits. -/
def exponentBits (x : Double) : Nat :=
  x.bits.toNat / Nat.pow 2 52 % Nat.pow 2 11

/-- The 52 bits of the fraction. -/
def fractionBits (x : Double) : Nat :=
  x.bits.toNat % Nat.pow 2 52

def isNaN (x : Double) : Bool :=
  x.exponentBits == 2047 && x.fractionBits != 0

def isInfinite (x : Double) : Bool :=
  x.exponentBits == 2047 && x.fractionBits == 0

/-- Either zero. -/
def isZero (x : Double) : Bool :=
  x.exponentBits == 0 && x.fractionBits == 0

/-- The integer factor of a finite number. -/
def significand (x : Double) : Nat :=
  if x.exponentBits = 0 then x.fractionBits else Nat.pow 2 52 + x.fractionBits

/-- A finite number's power of two, counted from the smallest one: `2 ^ (place - 1074)`. -/
def place (x : Double) : Nat :=
  x.exponentBits - 1

/-- The number without its sign. -/
def abs (x : Double) : Double :=
  ⟨x.bits &&& 0x7fffffffffffffff⟩

/-- Numeric equality: no NaN equals anything, and the two zeros are equal. -/
def equals (x y : Double) : Bool :=
  !x.isNaN && !y.isNaN && (x.bits == y.bits || x.isZero && y.isZero)

/-- Whether the number is exactly the given integer. -/
def equalsInt (x : Double) (i : Int) : Bool :=
  x.exponentBits != 2047 &&
    x.significand * Nat.pow 2 x.place == i.natAbs * Nat.pow 2 1074 &&
    (x.isZero || x.negative == decide (i < 0))

end Double
end HintCheck
