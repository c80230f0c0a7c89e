import Nodal.Decimal.Binary64

/-! # A fixed number of digits

The decimal with a given number of digits nearest to a floating point value. The value is exact; a
value half way between two decimals goes to the even one. -/

namespace Nodal.Decimal

/-- The whole number nearest to `num / den`, to the even one when two are equally near. -/
def roundHalfEven (num den : Nat) : Nat :=
  let d := num / den
  let rest := 2 * (num % den)
  if rest < den then d
  else if den < rest then d + 1
  else d + d % 2

/-- `significand * 2 ^ exponent` to `places` digits after the leading one. -/
def rounded (places : Nat) (significand : Nat) (exponent : Int) : Decimal :=
  if significand = 0 then ⟨0, -(places : Int)⟩
  else
    let num := significand * Nat.pow 2 exponent.toNat
    let den := Nat.pow 2 (-exponent).toNat
    let k := leadingExponent num den - places
    let d := roundHalfEven (num * Nat.pow 10 (-k).toNat) (den * Nat.pow 10 k.toNat)
    if d = Nat.pow 10 (places + 1) then ⟨Nat.pow 10 places, k + 1⟩ else ⟨d, k⟩

end Nodal.Decimal
