import Qubits.Numeric.Binary64
import Qubits.Numeric.Shortest
import Qubits.Numeric.Fixed
import Qubits.Numeric.DComplex
import Qubits.Text.Blank
import Qubits.Text.IntLiteral
import Qubits.Text.Printable
import Qubits.Random.Twister
import Qubits.Fault
import Qubits.Bits
import Qubits.Amplitude
import Qubits.StateVector
import Qubits.Gate
import Qubits.Script.Line
import Qubits.Script.Operands
import Qubits.Script.Session
import Qubits.Script.Step
import Qubits.Script.Report
import Qubits.Script.Render
import Qubits.Script.Program
import Qubits.Circuit.Run
import Qubits.Circuit.Page
import Qubits.Summation
import Qubits.Workload.Core
import Qubits.Workload.Programs
import Qubits.Workload.Suite
import Qubits.Main
import Qubits.Proofs.Exact
import Qubits.Proofs.BasisIndex
import Qubits.Proofs.Scatter
import Qubits.Proofs.SingleQubit
import Qubits.Proofs.Controlled
import Qubits.Proofs.BitReversal
import Qubits.Proofs.Permutation
import Qubits.Proofs.FourierBlock
import Qubits.Proofs.UnitVector
import Qubits.Proofs.Runs
import Qubits.Proofs.FirstPass
import Qubits.Proofs.Passes
import Qubits.Proofs.SessionInvariant
import Qubits.Proofs.Shapes
import Qubits.Proofs.Outcomes
import Qubits.Proofs.Bounds
import Qubits.Proofs.ReportState
import Qubits.Proofs.Normalisation
import Qubits.Proofs.FourierCircuit
import Qubits.Proofs.WalshHadamard
import Qubits.Proofs.FourierRoundTrip
import Qubits.Proofs.RangeDirection
import Qubits.Proofs.CommandText
import Qubits.Proofs.CommandSyntax
import Qubits.Proofs.CircuitRefinement
import Qubits.Proofs.GateAlgebra
import Qubits.Proofs.GroverIteration
import Qubits.Proofs.GroverProgram
import Qubits.Proofs.CommandReading
import Qubits.Proofs.CircuitNormalisation
import Qubits.Proofs.FourierRanges
import Qubits.Proofs.SignedBits
