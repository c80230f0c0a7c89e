import Nodal.Json.Literal

/-! # JSON values

A value as it stands in a document: numbers and texts keep their spelling, objects keep the order of
their members and may repeat a key. What a spelling means is decided by who reads it, so that a part
of a document that nobody reads may hold numbers out of range and texts without meaning. -/

namespace Nodal.Json

/-- One piece of a text: a character, or an escaped UTF-16 code unit. -/
inductive Piece where
  | char (c : Char)
  | unit (u : Nat)
  deriving DecidableEq, Repr

abbrev RawText := List Piece

namespace RawText

def ofString (s : String) : RawText := s.toList.map .char

def isLeading (u : Nat) : Bool := 0xD800 ≤ u && u < 0xDC00

def isTrailing (u : Nat) : Bool := 0xDC00 ≤ u && u < 0xE000

/-- The characters of a text: a leading surrogate needs a trailing one right behind it, and a
trailing one stands nowhere else. -/
def chars? : RawText → Option (List Char)
  | [] => some []
  | .char c :: rest => (chars? rest).map (c :: ·)
  | .unit u :: .unit v :: rest =>
    if isLeading u then
      if isTrailing v then
        (chars? rest).map (Char.ofNat (0x10000 + (u - 0xD800) * 0x400 + (v - 0xDC00)) :: ·)
      else none
    else if isTrailing u then none
    else (chars? (.unit v :: rest)).map (Char.ofNat u :: ·)
  | .unit u :: rest =>
    if isLeading u || isTrailing u then none else (chars? rest).map (Char.ofNat u :: ·)

def string? (t : RawText) : Option String := t.chars?.map String.ofList

end RawText

inductive Value where
  | null
  | bool (b : Bool)
  | number (literal : Literal)
  | text (raw : RawText)
  | array (items : List Value)
  | object (members : List (RawText × Value))

namespace Value

def string (s : String) : Value := .text (RawText.ofString s)

def nat (n : Nat) : Value := .number (.ofNat n)

/-- A number as it is spelled. One without a spelling is null. -/
def float (spell : Float → Option Literal) (x : Float) : Value :=
  match spell x with
  | some l => .number l
  | none => .null

/-- An object whose keys are plain. -/
def record (members : List (String × Value)) : Value :=
  .object (members.map fun (key, v) => (RawText.ofString key, v))

mutual

/-- Whether every number and text inside means something and containers nest at most `depth`
deep. -/
def isSound : Nat → Value → Bool
  | _, .null => true
  | _, .bool _ => true
  | _, .number l => l.float?.isSome
  | _, .text t => t.chars?.isSome
  | 0, .array _ => false
  | depth + 1, .array items => allSound depth items
  | 0, .object _ => false
  | depth + 1, .object members => membersSound depth members

def allSound : Nat → List Value → Bool
  | _, [] => true
  | depth, v :: rest => v.isSound depth && allSound depth rest

def membersSound : Nat → List (RawText × Value) → Bool
  | _, [] => true
  | depth, (key, v) :: rest =>
    key.chars?.isSome && v.isSound depth && membersSound depth rest

end

end Value

end Nodal.Json
