import Nodal.Json.Token

/-! # Reading JSON

A value is put together token by token. The containers that are still open form a stack, so a
document may nest as deep as it likes. -/

namespace Nodal.Json

/-- A container that is still open, with its members last first. -/
inductive Frame where
  | array (items : List Value)
  | object (members : List (RawText × Value))
  /-- An object that has read a key and waits for its value. -/
  | member (members : List (RawText × Value)) (key : RawText)

inductive Reader where
  /-- A value; or the end of the array, when it has just begun. -/
  | value (frames : List Frame) (fresh : Bool)
  /-- A key; or the end of the object, when it has just begun. -/
  | key (members : List (RawText × Value)) (frames : List Frame) (fresh : Bool)
  | colon (frames : List Frame)
  /-- A comma or the end of the innermost container. -/
  | next (frames : List Frame)
  | done (v : Value)

namespace Reader

def start : Reader := value [] false

/-- Puts a finished value where it belongs. -/
def put (v : Value) : List Frame → Reader
  | [] => done v
  | .array items :: rest => next (.array (v :: items) :: rest)
  | .member members k :: rest => next (.object ((k, v) :: members) :: rest)
  | .object members :: rest => next (.object members :: rest)

/-- The value of a token that is one by itself. -/
def scalar? : Token → Option Value
  | .null => some .null
  | .bool b => some (.bool b)
  | .number l => some (.number l)
  | .text t => some (.text t)
  | _ => none

def step? : Reader → Token → Option Reader
  | value frames fresh, t =>
    match t, fresh, frames with
    | .beginArray, _, _ => some (value (.array [] :: frames) true)
    | .beginObject, _, _ => some (key [] frames true)
    | .endArray, true, .array items :: rest => some (put (.array items.reverse) rest)
    | t, _, _ => (scalar? t).map (put · frames)
  | key members frames fresh, t =>
    match t, fresh with
    | .text k, _ => some (colon (.member members k :: frames))
    | .endObject, true => some (put (.object members.reverse) frames)
    | _, _ => none
  | colon frames, t =>
    match t with
    | .colon => some (value frames false)
    | _ => none
  | next frames, t =>
    match t, frames with
    | .comma, .array items :: rest => some (value (.array items :: rest) false)
    | .comma, .object members :: rest => some (key members rest false)
    | .endArray, .array items :: rest => some (put (.array items.reverse) rest)
    | .endObject, .object members :: rest => some (put (.object members.reverse) rest)
    | _, _ => none
  | done _, _ => none

def finish? : Reader → Option Value
  | done v => some v
  | _ => none

end Reader

def Value.ofTokens? (ts : List Token) : Option Value := do
  let r ← ts.foldlM Reader.step? Reader.start
  r.finish?

def Value.ofString? (text : String) : Option Value := do
  let ts ← tokens? text.toList
  ofTokens? ts

end Nodal.Json
