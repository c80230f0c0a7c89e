/-! # Binary floating point taken apart

A finite value of 64-bit floating point is a natural number times a power of two, with a sign. Text
is made from these two numbers, in exact arithmetic. -/

namespace Nodal

inductive Binary64 where
  | notANumber
  | infinite (negative : Bool)
  /-- The value `significand * 2 ^ exponent`. -/
  | finite (negative : Bool) (significand : Nat) (exponent : Int)
  deriving DecidableEq, Repr

def leadingBit : Nat := 0x10000000000000

/-- Reads sign, biased exponent and fraction. A biased exponent of zero marks a value without the
leading bit. -/
def Binary64.ofBits (bits : Nat) : Binary64 :=
  let negative := decide (bits / 0x8000000000000000 % 2 = 1)
  let biased : Nat := bits / leadingBit % 0x800
  let fraction := bits % leadingBit
  if biased = 2047 then
    if fraction = 0 then .infinite negative else .notANumber
  else if biased = 0 then .finite negative fraction (-1074)
  else .finite negative (leadingBit + fraction) ((biased : Int) - 1075)

def Binary64.ofFloat (x : Float) : Binary64 := ofBits x.toBits.toNat

/-- The decimal number `digits * 10 ^ exponent`. -/
structure Decimal where
  digits : Nat
  exponent : Int
  deriving DecidableEq, Repr

namespace Decimal

def digitCount (n : Nat) : Nat := (toString n).length

/-- The exponent of the leading digit of `num / den`, both above zero. -/
def leadingExponent (num den : Nat) : Int :=
  if den ≤ num then (digitCount (num / den) : Int) - 1
  else -(digitCount ((den - 1) / num) : Int)

end Decimal

end Nodal
