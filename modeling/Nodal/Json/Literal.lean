import Nodal.Decimal.Shortest
import Nodal.Decimal.Reading

/-! # Number literals

A JSON number is kept as it is spelled: sign, digits, fraction, exponent. Which numbers a field
takes is decided when the field is read. -/

namespace Nodal.Json
open Text

/-- A spelled number. No fraction means no point. -/
structure Literal where
  negative : Bool
  whole : List Char
  fraction : List Char
  exponent : Option Int
  deriving DecidableEq, Repr

namespace Literal

/-- No leading zero stands in front of other digits. -/
def isWhole : List Char → Bool
  | [] => false
  | ['0'] => true
  | d :: rest => d != '0' && (d :: rest).all isDigit

/-- A point is followed by a digit. -/
def splitFraction : List Char → Option (List Char × List Char)
  | '.' :: rest =>
    let (digits, after) := rest.span isDigit
    if digits.isEmpty then none else some (digits, after)
  | cs => some ([], cs)

/-- An exponent mark is followed by a number with or without a sign. -/
def readExponent : List Char → Option (Option Int)
  | [] => some none
  | cs => (exponent? cs).map some

def ofChars? (cs : List Char) : Option Literal := do
  let (negative, cs) :=
    match cs with
    | '-' :: rest => (true, rest)
    | cs => (false, cs)
  let (whole, rest) := cs.span isDigit
  if isWhole whole then
    let (fraction, rest) ← splitFraction rest
    let exponent ← readExponent rest
    return { negative, whole, fraction, exponent }
  else none

def render (l : Literal) : String :=
  (if l.negative then "-" else "") ++ String.ofList l.whole ++
    (if l.fraction.isEmpty then "" else "." ++ String.ofList l.fraction) ++
    match l.exponent with
    | none => ""
    | some e => "e" ++ toString e

def ofNat (n : Nat) : Literal :=
  { negative := false, whole := (toString n).toList, fraction := [], exponent := none }

/-- Digits with a point among them or beside them, as long as it is not far away; one digit, the
point and an exponent otherwise. -/
def ofDecimal (negative : Bool) (d : Decimal) : Literal :=
  let digits := (toString d.digits).toList
  let point := d.exponent + (digits.length : Int)
  if 0 ≤ d.exponent ∧ point ≤ 16 then
    { negative
      whole := digits ++ List.replicate d.exponent.toNat '0'
      fraction := ['0']
      exponent := none }
  else if 0 < point ∧ point ≤ 16 then
    { negative
      whole := digits.take point.toNat
      fraction := digits.drop point.toNat
      exponent := none }
  else if -5 < point ∧ point ≤ 0 then
    { negative
      whole := ['0']
      fraction := List.replicate (-point).toNat '0' ++ digits
      exponent := none }
  else
    { negative
      whole := digits.take 1
      fraction := digits.drop 1
      exponent := some (point - 1) }

/-- The shortest digits that read back. Only finite numbers have a literal. -/
def shortest? (x : Float) : Option Literal :=
  match Binary64.ofFloat x with
  | .finite negative m q => some (ofDecimal negative (Decimal.shortest m q))
  | _ => none

/-- Written without point and exponent. -/
def isInteger (l : Literal) : Bool := l.fraction.isEmpty && l.exponent.isNone

/-- The number of an unsigned integer literal that fits a machine word. -/
def word? (l : Literal) : Option UInt64 :=
  let n := digitsValue l.whole
  if l.isInteger && !l.negative && n < UInt64.size then some (UInt64.ofNat n) else none

/-! ## Floating point

A literal with a fraction or an exponent is read in one pass with a significand of one machine word.
The result is near the nearest value and not always equal to it: the significand is converted, then
scaled once by a power of ten, or several times when the exponent is very small. -/

/-- The digits taken so far and the power of ten still to be applied. -/
structure Significand where
  value : Nat
  exponent : Int
  /-- No more digits are taken. -/
  full : Bool

namespace Significand

/-- A digit in front of the point that no longer fits counts as a factor of ten. -/
def takeWhole (s : Significand) (c : Char) : Significand :=
  let next := 10 * s.value + digitValue c
  if !s.full && next < UInt64.size then { s with value := next }
  else { s with exponent := s.exponent + 1, full := true }

/-- A digit behind the point that no longer fits is dropped, and all after it. -/
def takeFraction (s : Significand) (c : Char) : Significand :=
  let next := 10 * s.value + digitValue c
  if !s.full && next < UInt64.size then { s with value := next, exponent := s.exponent - 1 }
  else { s with full := true }

def ofDigits (whole fraction : List Char) : Significand :=
  let s := whole.foldl takeWhole ⟨0, 0, false⟩
  fraction.foldl takeFraction { s with full := false }

end Significand

def exponentLimit : Int := 2147483647

def saturate (e : Int) : Int :=
  if exponentLimit < e then exponentLimit
  else if e < -exponentLimit - 1 then -exponentLimit - 1
  else e

def powerOfTen (k : Nat) : Float := OfScientific.ofScientific 1 false k

/-- Applies a power of ten; `none` when the value overflows. Exponents below the smallest power are
applied in steps, until the value vanishes. -/
def applyExponent : Nat → Float → Int → Option Float
  | 0, x, _ => some x
  | steps + 1, x, e =>
    if e.natAbs ≤ 308 then
      if 0 ≤ e then
        let y := x * powerOfTen e.natAbs
        if y.isInf then none else some y
      else some (x / powerOfTen e.natAbs)
    else if x == 0.0 then some x
    else if 0 ≤ e then none
    else applyExponent steps (x / powerOfTen 308) (e + 308)

/-- The floating point value of a literal without its sign; `none` when it is too large. -/
def magnitude? (l : Literal) : Option Float :=
  let n := digitsValue l.whole
  if l.isInteger && n < UInt64.size then some (UInt64.ofNat n).toFloat
  else
    let s := Significand.ofDigits l.whole l.fraction
    let explicit := l.exponent.getD 0
    if exponentLimit < explicit.natAbs then
      if s.value ≠ 0 ∧ 0 < explicit then none else some 0.0
    else
      let e := saturate (s.exponent + explicit)
      applyExponent (e.natAbs / 308 + 1) (UInt64.ofNat s.value).toFloat e

def float? (l : Literal) : Option Float :=
  (magnitude? l).map fun x => if l.negative then -x else x

end Literal

end Nodal.Json
