import Nodal.Json.Value

/-! # Writing JSON

Without blanks. Characters are written as they are, save the quote, the backslash and the control
characters. -/

namespace Nodal.Json

def hexDigit (n : Nat) : Char :=
  if n < 10 then Char.ofNat ('0'.toNat + n) else Char.ofNat ('a'.toNat + (n - 10))

def escapeUnit (u : Nat) : String :=
  String.ofList
    ['\\', 'u', hexDigit (u / 4096 % 16), hexDigit (u / 256 % 16), hexDigit (u / 16 % 16),
      hexDigit (u % 16)]

def escapeChar (c : Char) : String :=
  if c = '"' then "\\\""
  else if c = '\\' then "\\\\"
  else if c = '\n' then "\\n"
  else if c = '\r' then "\\r"
  else if c = '\t' then "\\t"
  else if c = '\x08' then "\\b"
  else if c = '\x0c' then "\\f"
  else if c.toNat < 0x20 then escapeUnit c.toNat
  else c.toString

def Piece.render : Piece → String
  | .char c => escapeChar c
  | .unit u => escapeUnit u

def RawText.render (t : RawText) : String :=
  "\"" ++ String.join (t.map Piece.render) ++ "\""

/-- Writes parts one after the other, with commas between them. -/
def commaSeparated : List String → String
  | [] => ""
  | [s] => s
  | s :: t :: rest => s ++ "," ++ commaSeparated (t :: rest)

namespace Value

mutual

def render : Value → String
  | .null => "null"
  | .bool b => if b then "true" else "false"
  | .number l => l.render
  | .text t => RawText.render t
  | .array items => "[" ++ commaSeparated (renderItems items) ++ "]"
  | .object members => "\x7b" ++ commaSeparated (renderMembers members) ++ "\x7d"

def renderItems : List Value → List String
  | [] => []
  | v :: rest => v.render :: renderItems rest

def renderMembers : List (RawText × Value) → List String
  | [] => []
  | (key, v) :: rest => (RawText.render key ++ ":" ++ v.render) :: renderMembers rest

end

end Value

end Nodal.Json
