import Nodal.Newton.Settings

/-! # Settings of a simulation -/

namespace Nodal

structure SimulatorSettings (α : Type) where
  /-- Simulated time of one tick. -/
  timestep : α
  /-- Simulated time that passes in one second. -/
  rate : α
  /-- Start of the random numbers of the Newton solver. -/
  seed : UInt64
  newton : NewtonSettings α
  deriving Repr

def defaultSeed : UInt64 := 0x5eedc1c0

namespace SimulatorSettings
variable {α : Type} [Scalar α]

def standard : SimulatorSettings α :=
  { timestep := 5e-6, rate := 1e-3, seed := defaultSeed, newton := .standard }

def validate (s : SimulatorSettings α) : Except (Failure α) Unit :=
  if !Scalar.isPositive s.timestep then .error (.setting (.notPositive "timestep" s.timestep))
  else if !Scalar.isPositive s.rate then .error (.setting (.notPositive "sim_time_per_sec" s.rate))
  else s.newton.validate

end SimulatorSettings

end Nodal
