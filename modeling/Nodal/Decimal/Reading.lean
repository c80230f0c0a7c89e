import Nodal.Decimal.Binary64

/-! # Reading a floating point number

A decimal becomes the floating point value nearest to it. The grammar is that of command line
options: an optional sign, then `inf`, `infinity` or `nan` in letters of either case, or digits with
at most one point and an optional exponent. At least one digit stands beside the point. -/

namespace Nodal

namespace Decimal

/-- Beyond these exponents of the leading digit a value overflows or vanishes. -/
def toFloat (negative : Bool) (d : Decimal) : Float :=
  let lead := d.exponent + (digitCount d.digits : Int)
  let x : Float :=
    if d.digits = 0 ∨ lead < -400 then 0.0
    else if 400 < lead then 1.0 / 0.0
    else if 0 ≤ d.exponent then OfScientific.ofScientific d.digits false d.exponent.toNat
    else OfScientific.ofScientific d.digits true (-d.exponent).toNat
  if negative then -x else x

end Decimal

namespace Text

def isDigit (c : Char) : Bool := '0' ≤ c && c ≤ '9'

def digitValue (c : Char) : Nat := c.toNat - '0'.toNat

def digitsValue (cs : List Char) : Nat :=
  cs.foldl (fun n c => 10 * n + digitValue c) 0

/-- Splits off a sign; `true` is minus. -/
def splitSign : List Char → Bool × List Char
  | '-' :: rest => (true, rest)
  | '+' :: rest => (false, rest)
  | cs => (false, cs)

/-- An exponent mark with its signed number, or nothing. -/
def exponent? : List Char → Option Int
  | [] => some 0
  | c :: rest =>
    if c = 'e' ∨ c = 'E' then
      let (negative, digits) := splitSign rest
      if digits.isEmpty || !digits.all isDigit then none
      else
        let n : Int := digitsValue digits
        some (if negative then -n else n)
    else none

def decimal? (cs : List Char) : Option Decimal := do
  let (whole, rest) := cs.span isDigit
  let (fraction, rest) :=
    match rest with
    | '.' :: after => after.span isDigit
    | _ => ([], rest)
  if whole.isEmpty && fraction.isEmpty then none
  let e ← exponent? rest
  return ⟨digitsValue (whole ++ fraction), e - fraction.length⟩

def float? (text : String) : Option Float :=
  let (negative, rest) := splitSign text.toList
  let word := String.ofList (rest.map Char.toLower)
  let signed (x : Float) : Float := if negative then -x else x
  if word = "inf" ∨ word = "infinity" then some (signed (1.0 / 0.0))
  else if word = "nan" then some (signed (0.0 / 0.0))
  else (decimal? rest).map (Decimal.toFloat negative)

/-- An unsigned option value below `bound`: digits after an optional plus. -/
def natural? (bound : Nat) (text : String) : Option Nat :=
  let digits :=
    match text.toList with
    | '+' :: rest => rest
    | cs => cs
  if digits.isEmpty || !digits.all isDigit then none
  else
    let n := digitsValue digits
    if n < bound then some n else none

end Text

end Nodal
