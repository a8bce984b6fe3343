import Qubits.Workload.Core
import Qubits.Script.Program

/-!
# Workloads on the script simulator

Three workloads on the script simulator, each sized by a number of qubits `n`, whose highest qubit
`n - 1` is written into the programs they run:

* `programVariants` runs a program with random amplitudes on the basis states `0 … 7` and a Hadamard
  gate on every qubit, a modular-power program with a Fourier transform and a program that asks for
  the plot, and reports the total modulus of each final state and the size of the first register;
* `kernelChain` applies a fixed chain of the simulator's gates to the uniform superposition and
  reports its total modulus and length, with the operands of nine sample commands;
* `fullProgram` runs a program that uses every command word and reports the total modulus of the
  final state and the register size.
-/

namespace Qubits.Workload

open Script

variable {R K : Type} [RealScalar R] [Amplitude R K]

def runToEnd (seed : Int) (program : String) : Except Fault (Session R K) :=
  match (runProgram true seed program).run Session.initial with
  | .ok _ s => .ok s
  | .error f _ => .error f

def finalModulus (s : Session R K) : Except Fault R :=
  match s.report with
  | some c => .ok (totalModulus c)
  | none => .error (.unboundGlobal "C")

def randomStartProgram (top : Int) : String :=
  "init q[0:7];\nh q[0:" ++ toString top ++ "];\n"

def modularProgram : String :=
  "N&m 15,7;\nid q[3];\nh q[0:3];\nQFT q[0:3];\n"

def plotProgram : String :=
  "plot 1;\nh q[0:2];\n"

def variantSeed : Int := 12345

def programVariants (n : Int) : Except Fault (Reading R) := do
  let first ← runToEnd (R := R) (K := K) variantSeed (randomStartProgram (n - 1))
  let second ← runToEnd (R := R) (K := K) 0 modularProgram
  let third ← runToEnd (R := R) (K := K) 0 plotProgram
  pure (.list [.real (← finalModulus first), .real (← finalModulus second),
    .real (← finalModulus third), .count first.size])

/-- The nine sample commands whose operands `kernelChain` reports, one for each way of writing
operands: a range, a single qubit, `sk` with a range and with one qubit, `cx` with a range of
controls, with a range of targets and with single qubits, `csk`, and `N&m`. -/
def sampleCommands : List String :=
  ["h q[10:11];", "x q[10];", "sk q[10:11], 2;", "sk q[10], 2;", "cx q[10:11], q[12];",
    "cx q[10], q[11:12];", "cx q[10], q[12];", "csk q[10], q[11], 4;", "N&m 21,5;"]

def operandReading (o : Operands) : Reading R :=
  .list [.count o.controlFrom, .count o.controlTo, .count o.targetFrom, .count o.targetTo]

def chainFlags (n : Int) : Except Fault (Array Bool) := do
  let flags := Array.replicate n.toNat false
  let flags ← StateVector.write flags 0 true
  StateVector.write flags 1 true

/-- The fixed chain of gates, on qubit 0, qubit `1 mod n` and the top qubit `n - 1`: a Hadamard
gate on qubit `1 mod n` and then on every qubit, which leaves that qubit in an equal superposition
and the others at 0; the Pauli gates `X` on qubit 0, `Y` on the top qubit and `Z` on qubit
`1 mod n`; the phase `e^(iπ/4)` on qubit 0; a controlled NOT from qubit `1 mod n` to qubit 0, which
entangles the two; the controlled phase `e^(-iπ/2)` from qubit `1 mod n` to the top qubit; the
reversal of the qubit order; and the Fourier transform on the lowest qubits, at most four. -/
def chainGates (n : Nat) (a : Array K) : Except Fault (Array K) := do
  let second : Int := Int.ofNat (1 % n)
  let top : Int := Int.ofNat n - 1
  let a ← Gate.hadamard n second a
  let a ← Gate.hadamardAll n a
  let a ← Gate.pauliX n 0 a
  let a ← Gate.pauliY n top a
  let a ← Gate.pauliZ n second a
  let a ← Gate.phaseRoot n 0 (RealScalar.ofInt 4) a
  let a ← Gate.controlledNot n second 0 a
  let a ← Gate.controlledPhase n second top (RealScalar.ofInt (-2)) a
  let a ← Gate.reverseQubits n a
  Gate.fourierBlock n 0 (Int.ofNat (min (n - 1) 3)) (RealScalar.ofInt 1) a

def kernelChain (n : Int) : Except Fault (Reading R) := do
  let s ← uniformState (K := K) n
  let flags ← chainFlags n
  let s ← chainGates n.toNat s
  let _ := flags
  let samples ← sampleCommands.mapM operands
  pure (.list [.real (totalModulus s), .count s.size, .list (samples.map operandReading)])

/-- The full program, with highest qubit `top`: every gate word over single qubits and ranges in
both directions, the controlled gates, the sign flip, the reversal, the Fourier transforms and
measurements, after the settings. -/
def fullProgramText (top : Int) : String :=
  let t := toString top
  "verbose 0;\nprintout 1;\nInverse_P_threshold 64;\n" ++
  "h q[0:" ++ t ++ "];\nx q[0];\ny q[1];\nz q[0:1];\ns q[" ++ t ++ ":0];\nsdg q[0:" ++ t ++
  "];\nt q[1:0];\ntdg q[0];\nsk q[0], 4;\ncx q[0], q[1];\ncsk q[0], q[1], 2;\nSign 1;\n" ++
  "reverse;\nQFT q[0:" ++ t ++ "];\nIQFT q[0:" ++ t ++ "];\nmeasure q[0:1];\n"

def fullProgram (n : Int) : Except Fault (Reading R) := do
  let s ← runToEnd (R := R) (K := K) 0 (fullProgramText (n - 1))
  pure (.list [.real (← finalModulus s), .count s.size])

end Qubits.Workload
