import Nodal.Decimal.Reading

/-! # Command line arguments

One circuit file and some options, in any order. An option takes its value from the next argument,
or from its own argument, behind an equals sign or, when it is a short one, right behind its letter.
The next argument is no value when it looks like an option. No option stands twice; behind a bare
`--` there are none. -/

namespace Nodal.CommandLine

inductive Flag where
  | durationMs
  | frameMs
  | timestep
  | rate
  | seed
  | every
  deriving DecidableEq, Repr

namespace Flag

def all : List Flag := [durationMs, frameMs, timestep, rate, seed, every]

def long : Flag → String
  | durationMs => "duration-ms"
  | frameMs => "frame-ms"
  | timestep => "timestep"
  | rate => "sim-time-per-sec"
  | seed => "seed"
  | every => "every"

def short? : Flag → Option Char
  | durationMs => some 'd'
  | frameMs => some 'f'
  | every => some 'e'
  | _ => none

def ofLong? (name : String) : Option Flag := all.find? fun f => f.long = name

def ofShort? (c : Char) : Option Flag := all.find? fun f => f.short? = some c

end Flag

inductive Item where
  | positional (text : String)
  | option (flag : Flag) (value : String)
  deriving DecidableEq, Repr

/-- What one argument is by itself. -/
inductive Shape where
  | positional
  | complete (flag : Flag) (value : String)
  /-- The value is in the next argument. -/
  | open (flag : Flag)
  | unknown

def shapeOfLong (cs : List Char) : Shape :=
  let (name, rest) := cs.span (· != '=')
  match Flag.ofLong? (String.ofList name), rest with
  | some f, [] => .open f
  | some f, _ :: value => .complete f (String.ofList value)
  | none, _ => .unknown

/-- A short option, from its letter on. -/
def shapeOfShort (c : Char) (rest : List Char) : Shape :=
  match Flag.ofShort? c, rest with
  | some f, [] => .open f
  | some f, '=' :: value => .complete f (String.ofList value)
  | some f, value => .complete f (String.ofList value)
  | none, _ => .unknown

/-- A dash alone is no option. -/
def shapeOf (arg : String) : Shape :=
  match arg.toList with
  | '-' :: '-' :: cs => shapeOfLong cs
  | '-' :: c :: rest => shapeOfShort c rest
  | _ => .positional

/-- Whether an argument starts with a dash and goes on. -/
def looksLikeOption (arg : String) : Bool :=
  match arg.toList with
  | '-' :: _ :: _ => true
  | _ => false

def items? : List String → Option (List Item)
  | [] => some []
  | arg :: rest =>
    if arg = "--" then some (rest.map .positional)
    else
      match shapeOf arg with
      | .positional => (items? rest).map (.positional arg :: ·)
      | .complete f value => (items? rest).map (.option f value :: ·)
      | .open f =>
        match rest with
        | [] => none
        | value :: rest =>
          if looksLikeOption value then none else (items? rest).map (.option f value :: ·)
      | .unknown => none

structure Arguments where
  file : String
  durationMs : Float
  frameMs : Float
  /-- These replace the settings of the file. -/
  timestep : Option Float
  rate : Option Float
  seed : Option UInt64
  /-- Frames between two reports; zero leaves only the last report. -/
  every : Nat

def positionals (items : List Item) : List String :=
  items.filterMap fun
    | .positional text => some text
    | .option .. => none

def values (items : List Item) (flag : Flag) : List String :=
  items.filterMap fun
    | .option f value => if f = flag then some value else none
    | .positional _ => none

/-- The only value of an option, or none; an option that stands twice is refused. -/
def value? {β : Type} (items : List Item) (flag : Flag) (read? : String → Option β) :
    Option (Option β) :=
  match values items flag with
  | [] => some none
  | [text] => (read? text).map some
  | _ => none

def word? (text : String) : Option Nat := Text.natural? UInt64.size text

/-- Reads a command line; a wrong one asks for nothing. -/
def Arguments.ofList? (args : List String) : Option Arguments := do
  let items ← items? args
  let [file] := positionals items | none
  if file.isEmpty then none
  let durationMs ← value? items .durationMs Text.float?
  let frameMs ← value? items .frameMs Text.float?
  let timestep ← value? items .timestep Text.float?
  let rate ← value? items .rate Text.float?
  let seed ← value? items .seed word?
  let every ← value? items .every word?
  return {
    file
    durationMs := durationMs.getD 1000.0
    frameMs := frameMs.getD 16.0
    timestep
    rate
    seed := seed.map UInt64.ofNat
    every := every.getD 0 }

end Nodal.CommandLine
