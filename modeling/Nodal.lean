import Nodal.Main
import Nodal.Newton.Polynomial
import Nodal.Proofs.Accessors
import Nodal.Proofs.Arrangement
import Nodal.Proofs.BestIterate
import Nodal.Proofs.ChannelLaws
import Nodal.Proofs.CircuitLaws
import Nodal.Proofs.Derivative
import Nodal.Proofs.DiodeLaws
import Nodal.Proofs.Energy
import Nodal.Proofs.Evaluations
import Nodal.Proofs.FloatOrder
import Nodal.Proofs.Frames
import Nodal.Proofs.FullPeriod
import Nodal.Proofs.Growth
import Nodal.Proofs.Guess
import Nodal.Proofs.Interruption
import Nodal.Proofs.Loading
import Nodal.Proofs.Lockstep
import Nodal.Proofs.NewtonTicks
import Nodal.Proofs.PassiveCircuits
import Nodal.Proofs.Renumbering
import Nodal.Proofs.RoundTrip
import Nodal.Proofs.Seeds
import Nodal.Proofs.Solvability
import Nodal.Proofs.SourceRows
import Nodal.Proofs.StampOrder
import Nodal.Proofs.Superposition
import Nodal.Proofs.Trapezoid
import Nodal.Proofs.Validation
import Nodal.Proofs.Edits
