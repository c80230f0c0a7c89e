import Nodal.CommandLine.Run
import Nodal.Proofs.Interruption

/-! # Failures are remembered

The program looks at the simulator after each frame and sees only whether the last tick has failed.
That is enough. A failing tick ends its frame, so no tick of the same frame hides it, and what is
seen after a frame without ticks has been seen before. -/

namespace Nodal.Simulator

section Frames
variable {α : Type} [Scalar α] {s s' s₁ : Simulator α} {milliseconds : α} {budget n : Nat}
  {log : List (Event α)} {logs : List (List (Event α))}

end Frames

section Exact
variable {α : Type} [ExactScalar α] [Archimedean α] {s : Simulator α}

/-- Every advance comes to an end, also that of a simulator that is stopped or not ready. -/
theorem exists_advances (hs : s.Consistent) (hconf : s.Configured) (milliseconds : α) :
    ∃ n log s', Advances milliseconds s n log s' := by
  by_cases hboth : s.running ∧ s.isReady
  · exact Ready.exists_advances ⟨hs, hconf, hboth.2⟩ hboth.1 milliseconds
  · exact ⟨0, [], s, 0, fun budget _ => advance_idle hboth budget milliseconds⟩

end Exact

end Nodal.Simulator

namespace Nodal.CommandLine
open Simulator

namespace Drive
variable {α : Type} [Scalar α] {budget count first : Nat} {milliseconds : α}
  {observe : Nat → Simulator α → List String} {d d' : Drive α} {s' : Simulator α}
  {logs : List (List (Event α))}

end Drive

/-! ## The program -/

/-- The drive of a simulation. -/
def driven (budget : Nat) (a : Arguments) (s : Simulator Float) : Outcome Float (Drive Float) :=
  let count := frameCount a.durationMs a.frameMs
  Drive.frames budget a.frameMs (observer a.every count) count 1 ⟨s.start, false, []⟩

end Nodal.CommandLine
