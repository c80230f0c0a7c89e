import Nodal.Json.Value

/-! # JSON tokens

A document is read character by character; the state between two characters says what has been
begun. Runs of letters, digits, signs and points are cut as long as they go and classified at their
end. -/

namespace Nodal.Json

inductive Token where
  | beginObject
  | endObject
  | beginArray
  | endArray
  | colon
  | comma
  | null
  | bool (b : Bool)
  | number (l : Literal)
  | text (t : RawText)

namespace Token

def isBlank (c : Char) : Bool := c == ' ' || c == '\t' || c == '\n' || c == '\r'

/-- Characters of numbers and of the three words. -/
def isWordChar (c : Char) : Bool :=
  Text.isDigit c || ('a' ≤ c && c ≤ 'z') || c == 'E' || c == '+' || c == '-' || c == '.'

def ofWord? (cs : List Char) : Option Token :=
  if cs = "null".toList then some .null
  else if cs = "true".toList then some (.bool true)
  else if cs = "false".toList then some (.bool false)
  else (Literal.ofChars? cs).map .number

def ofPunctuation? : Char → Option Token
  | '\x7b' => some .beginObject
  | '\x7d' => some .endObject
  | '[' => some .beginArray
  | ']' => some .endArray
  | ':' => some .colon
  | ',' => some .comma
  | _ => none

/-- The character that a one-letter escape stands for. -/
def ofEscape? : Char → Option Char
  | '"' => some '"'
  | '\\' => some '\\'
  | '/' => some '/'
  | 'b' => some '\x08'
  | 'f' => some '\x0c'
  | 'n' => some '\n'
  | 'r' => some '\r'
  | 't' => some '\t'
  | _ => none

def hexValue? (c : Char) : Option Nat :=
  if '0' ≤ c && c ≤ '9' then some (c.toNat - '0'.toNat)
  else if 'a' ≤ c && c ≤ 'f' then some (c.toNat - 'a'.toNat + 10)
  else if 'A' ≤ c && c ≤ 'F' then some (c.toNat - 'A'.toNat + 10)
  else none

end Token

/-- What has been begun. Letters and pieces are kept last first. -/
inductive Lexer.Mode where
  | between
  | word (letters : List Char)
  | text (pieces : RawText)
  | escape (pieces : RawText)
  /-- Inside an escaped code unit, with the value so far and the digits still missing. -/
  | unit (pieces : RawText) (value missing : Nat)

/-- The tokens so far, last first, and what has been begun. -/
structure Lexer where
  tokens : List Token
  mode : Lexer.Mode

namespace Lexer
open Token

def start : Lexer := ⟨[], .between⟩

/-- A character outside of texts and words. -/
def begin? (tokens : List Token) (c : Char) : Option Lexer :=
  if isBlank c then some ⟨tokens, .between⟩
  else if c == '"' then some ⟨tokens, .text []⟩
  else if isWordChar c then some ⟨tokens, .word [c]⟩
  else (ofPunctuation? c).map fun t => ⟨t :: tokens, .between⟩

/-- A character inside a text. Control characters must be escaped. -/
def continueText? (tokens : List Token) (pieces : RawText) (c : Char) : Option Lexer :=
  if c == '"' then some ⟨.text pieces.reverse :: tokens, .between⟩
  else if c == '\\' then some ⟨tokens, .escape pieces⟩
  else if c.toNat < 0x20 then none
  else some ⟨tokens, .text (.char c :: pieces)⟩

def step? (l : Lexer) (c : Char) : Option Lexer :=
  match l.mode with
  | .between => begin? l.tokens c
  | .word letters =>
    if isWordChar c then some ⟨l.tokens, .word (c :: letters)⟩
    else do
      let t ← ofWord? letters.reverse
      begin? (t :: l.tokens) c
  | .text pieces => continueText? l.tokens pieces c
  | .escape pieces =>
    if c == 'u' then some ⟨l.tokens, .unit pieces 0 4⟩
    else (ofEscape? c).map fun e => ⟨l.tokens, .text (.char e :: pieces)⟩
  | .unit pieces value missing => do
    let h ← hexValue? c
    let value := 16 * value + h
    if missing ≤ 1 then return ⟨l.tokens, .text (.unit value :: pieces)⟩
    else return ⟨l.tokens, .unit pieces value (missing - 1)⟩

def finish? (l : Lexer) : Option (List Token) :=
  match l.mode with
  | .between => some l.tokens.reverse
  | .word letters => (ofWord? letters.reverse).map fun t => (t :: l.tokens).reverse
  | _ => none

end Lexer

def tokens? (cs : List Char) : Option (List Token) := do
  let l ← cs.foldlM Lexer.step? Lexer.start
  l.finish?

end Nodal.Json
