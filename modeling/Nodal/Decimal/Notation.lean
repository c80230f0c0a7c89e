import Nodal.Decimal.Shortest
import Nodal.Decimal.Rounded

/-! # Floating point as text

Three notations: positional with the shortest digits, scientific with the shortest digits, and
scientific with a fixed number of places. Values that are not finite are words in all three. -/

namespace Nodal

namespace Decimal

def zeros (n : Nat) : String := String.ofList (List.replicate n '0')

/-- Puts a point after the first digit, when more digits follow. -/
def pointAfterFirst : List Char → List Char
  | [] => []
  | [d] => [d]
  | d :: e :: rest => d :: '.' :: e :: rest

/-- Digits with a point and no exponent. A whole number has no point. -/
def positional (d : Decimal) : String :=
  let text := toString d.digits
  if 0 ≤ d.exponent then text ++ zeros d.exponent.toNat
  else
    let places := (-d.exponent).toNat
    if places < text.length then
      let whole := text.length - places
      String.ofList (text.toList.take whole) ++ "." ++ String.ofList (text.toList.drop whole)
    else "0." ++ zeros (places - text.length) ++ text

/-- One digit, the others after a point, and the exponent of the first. -/
def scientific (d : Decimal) : String :=
  let text := toString d.digits
  let exponent := d.exponent + (text.length : Int) - 1
  String.ofList (pointAfterFirst text.toList) ++ "e" ++ toString exponent

/-- Zero has no leading digit: it is written with the digits asked for and the exponent 0. -/
def zeroScientific (places : Nat) : String :=
  if places = 0 then "0e0" else "0." ++ zeros places ++ "e0"

end Decimal

namespace Binary64

def sign (plus negative : Bool) : String :=
  if negative then "-" else if plus then "+" else ""

/-- The shortest digits that read back, without an exponent. -/
def positional : Binary64 → String
  | notANumber => "NaN"
  | infinite negative => sign false negative ++ "inf"
  | finite negative m q => sign false negative ++ (Decimal.shortest m q).positional

/-- The shortest digits that read back, with an exponent. -/
def scientific : Binary64 → String
  | notANumber => "NaN"
  | infinite negative => sign false negative ++ "inf"
  | finite negative m q => sign false negative ++ (Decimal.shortest m q).scientific

/-- `places` digits after the point and an exponent; `plus` asks for a sign on every number. -/
def scientificTo (places : Nat) (plus : Bool) : Binary64 → String
  | notANumber => "NaN"
  | infinite negative => sign plus negative ++ "inf"
  | finite negative m q =>
    sign plus negative ++
      if m = 0 then Decimal.zeroScientific places else (Decimal.rounded places m q).scientific

end Binary64

end Nodal
