import Nodal.CommandLine.Arguments
import Nodal.CommandLine.Files
import Nodal.CommandLine.Report

/-! # Running the program

Reads a circuit file, simulates it frame by frame, and reports. The program fails when the circuit
is refused and when any tick of any frame failed, also if later ones went well. -/

namespace Nodal.CommandLine

/-- What the program leaves behind: exit code and the lines it has written. -/
structure Run where
  code : UInt32
  output : List String
  errors : List String

structure Drive (α : Type) where
  simulator : Simulator α
  /-- Whether some frame so far ended with an error. -/
  failed : Bool
  /-- What observers have said, last first. -/
  lines : List String

namespace Drive
variable {α : Type} [Scalar α]

/-- Advances by one frame and lets an observer speak. -/
def frame (budget : Nat) (milliseconds : α) (observe : Nat → Simulator α → List String) (n : Nat)
    (d : Drive α) : Outcome α (Drive α) :=
  match Simulator.advance budget milliseconds d.simulator with
  | .ok _ s =>
    .ok {
      simulator := s
      failed := d.failed || s.lastError.isSome
      lines := (observe n s).reverse ++ d.lines }
  | .error h _ => .error h

def frames (budget : Nat) (milliseconds : α) (observe : Nat → Simulator α → List String) :
    Nat → Nat → Drive α → Outcome α (Drive α)
  | 0, _, d => .ok d
  | left + 1, n, d => do
    let d ← d.frame budget milliseconds observe n
    frames budget milliseconds observe left (n + 1) d

end Drive

/-- How many frames cover a duration; as many as a machine word can count at most. -/
def frameCount (durationMs frameMs : Float) : Nat :=
  (durationMs / frameMs).ceil.toUInt64.toNat

def override (a : Arguments) (s : SimulatorSettings Float) : SimulatorSettings Float :=
  { s with
    timestep := a.timestep.getD s.timestep
    rate := a.rate.getD s.rate
    seed := a.seed.getD s.seed }

/-- A report after every so many frames, but not after the last. -/
def observer (every last : Nat) (n : Nat) (s : Simulator Float) : List String :=
  if 0 < every ∧ n % every = 0 ∧ n ≠ last then reportLines s else []

def errorLine (message : String) : String := "error: " ++ message

def errorRun (e : Failure Float) : Run := ⟨1, [], [errorLine e.message]⟩

/-- Reads the file and loads it under the options. -/
def load (read : FileReader) (a : Arguments) : Outcome Float (Simulator Float) := do
  match Description.ofFile read a.file with
  | .error e => .fail e
  | .ok d =>
    if ¬0 < a.frameMs then .fail (.setting .frameLength)
    else
      let d := { d with simulation := override a d.simulation }
      match Simulator.loadDescription d Simulator.initial with
      | .ok () s => pure s
      | .error h _ => .error h

def simulate (budget : Nat) (a : Arguments) (s : Simulator Float) : Outcome Float Run := do
  match s.lastError with
  | some e => return errorRun e
  | none =>
    let count := frameCount a.durationMs a.frameMs
    let d ← Drive.frames budget a.frameMs (observer a.every count) count 1 ⟨s.start, false, []⟩
    let output := d.lines.reverse ++ reportLines d.simulator
    if d.failed then
      let message :=
        match d.simulator.lastError with
        | some e => e.message
        | none => "some ticks failed and were retried"
      return ⟨1, output, [errorLine message]⟩
    else return ⟨0, output, []⟩

/-- Runs the program. Wrong arguments end it with code 2, a request without an answer with code
101. -/
def run (budget : Nat) (read : FileReader) (args : List String) : Run :=
  match Arguments.ofList? args with
  | none => ⟨2, [], ["error: wrong arguments"]⟩
  | some a =>
    match load read a >>= simulate budget a with
    | .ok r => r
    | .error (.failed e) => errorRun e
    | .error (.misuse _) => ⟨101, [], ["error: the circuit cannot be laid out"]⟩
    | .error .exhausted => ⟨101, [], ["error: the simulation does not end"]⟩

end Nodal.CommandLine
