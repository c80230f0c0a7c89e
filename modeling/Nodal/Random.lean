import Nodal.Scalar

/-! # Sources of random numbers

A solver that perturbs its iterates is handed the source of its numbers: a run can be repeated. -/

namespace Nodal

/-- A stream of numbers from 0 up to 1, 1 excluded. -/
class RandomSource (ρ α : Type) where
  next : ρ → α × ρ

/-- The generator that adds a constant to its state and mixes the sum. -/
structure SplitMix64 where
  state : UInt64
  deriving DecidableEq, Repr, Inhabited

namespace SplitMix64

def increment : UInt64 := 0x9e3779b97f4a7c15

/-- Two rounds of shift and multiply, and a last shift. -/
def mix (z : UInt64) : UInt64 :=
  let z := (z ^^^ (z >>> 30)) * 0xbf58476d1ce4e5b9
  let z := (z ^^^ (z >>> 27)) * 0x94d049bb133111eb
  z ^^^ (z >>> 31)

def ofSeed (seed : UInt64) : SplitMix64 := ⟨seed⟩

def nextWord (g : SplitMix64) : UInt64 × SplitMix64 :=
  let state := g.state + increment
  (mix state, ⟨state⟩)

variable {α : Type} [Scalar α]

/-- The upper 53 bits of a word as a fraction. -/
def nextFraction (g : SplitMix64) : α × SplitMix64 :=
  let (word, g) := g.nextWord
  let top : α := Scalar.ofWord (word >>> 11)
  let range : α := Scalar.ofWord 9007199254740992
  (top * (1 / range), g)

instance : RandomSource SplitMix64 α := ⟨nextFraction⟩

end SplitMix64

/-- Numbers given in advance, then one half for ever. -/
structure Script (α : Type) where
  values : List α

instance {α : Type} [Scalar α] : RandomSource (Script α) α where
  next s :=
    match s.values with
    | [] => (0.5, s)
    | v :: rest => (v, ⟨rest⟩)

/-- The next number moved to the range from -1/2 to 1/2. -/
def RandomSource.jitter {ρ α : Type} [RandomSource ρ α] [Scalar α] (r : ρ) : α × ρ :=
  let (v, r) := RandomSource.next r
  (v - 0.5, r)

end Nodal
