import Qubits.Circuit.Page
import Qubits.Summation

/-!
# Workloads on the circuit runner

A workload reports a `Reading`: a real number, a count, a list of readings or nothing. Four
workloads on the small circuit runner and its page, each sized by a number of qubits `n`:

* `circuitRun` runs a command list that puts every qubit in `|+⟩`, with a few commands that change
  nothing around it, and reports the total probability, the total modulus after a Hadamard gate
  and a NOT on qubit 0, a bit pattern and the register size read back from the state length;
* `gateKernels` applies a Hadamard gate, a NOT and a Hadamard gate to the uniform superposition
  and reports the total modulus;
* `hadamardLadder` applies a Hadamard gate to each qubit of `|0…0⟩` and reports the total
  probability and the state length;
* `pageSizes` reports the byte lengths of the empty page and of the page for a circuit that puts
  every qubit in `|+⟩`.

Totals are pairwise sums.
-/

namespace Qubits.Workload

inductive Reading (R : Type) where
  | real (x : R)
  | count (n : Int)
  | list (items : List (Reading R))
  | nothing
  deriving Inhabited

open StateVector

variable {R K : Type} [RealScalar R] [Amplitude R K]

/-- The command list of `circuitRun`: a blank command and an `init` without a size, `init n`,
`h 0`, `x 0`, a Hadamard gate on each further qubit, then four commands that are skipped for a
missing or unreadable qubit and one unknown command. -/
def circuitCommands (n : Int) : List String :=
  ["", "init", "init " ++ toString n, "h 0", "x 0"] ++
    ((List.range (n - 1).toNat).map fun q => "h " ++ toString (q + 1)) ++
    ["h", "x", "h foo", "x bar", "noop 0"]

def totalModulus (a : Array K) : R := arraySum (a.map Amplitude.abs)

def circuitRun (n : Int) : Except Fault (Reading R) := do
  let o ← Circuit.run (R := R) (K := K) (circuitCommands n)
  let total := arraySum o.probabilities
  let b ← Circuit.applyGate .h o.size 0 o.state
  let b ← Circuit.applyGate .x o.size 0 b
  let high ← Bits.setAt 0 (n - 1)
  let low ← Bits.clearAt (Int.pow 2 n.toNat - 1) 0
  let q ← Circuit.qubitsOfLength o.state.size
  pure (.list [.real total, .real (totalModulus b), .count (Int.ofNat (high.toNat ^^^ low.toNat)),
    .count q])

def uniformState (n : Int) : Except Fault (Array K) := do
  let size ← registerSize n
  let u : R := RealScalar.ofInt 1 / RealScalar.sqrt (RealScalar.ofInt size)
  pure (Array.replicate size (Amplitude.ofReal u))

def gateKernels (n : Int) : Except Fault (Reading R) := do
  let s ← uniformState (K := K) n
  let s ← Circuit.applyGate .h n 0 s
  if n = 0 then throw .moduloByZero
  let s ← Circuit.applyGate .x n (1 % n) s
  let s ← Circuit.applyGate .h n (n - 1) s
  pure (.real (totalModulus s))

def groundState (n : Int) : Except Fault (Array K) := do
  let size ← registerSize n
  pure ((zeros size : Array K).setIfInBounds 0 (Amplitude.ofReal (RealScalar.ofInt 1)))

def hadamardLadder (n : Int) : Except Fault (Reading R) := do
  let s ← groundState (K := K) n
  let s ← (List.range n.toNat).foldlM (fun s (q : Nat) => Circuit.applyGate .h n q s) s
  let probabilities := s.map fun x => Amplitude.abs x * Amplitude.abs x
  pure (.list [.real (arraySum probabilities), .count s.size])

def pageCircuit (n : Int) : String :=
  "\n".intercalate (("init " ++ toString n) ::
    (List.range n.toNat).map fun q => "h " ++ toString q ++ "\nx " ++ toString q)

def pageSizes (n : Int) : Except Fault (Reading Float) := do
  let page ← Circuit.resultPage (pageCircuit n)
  pure (.list [.count Circuit.emptyPage.utf8ByteSize, .count page.utf8ByteSize, .count n])

end Qubits.Workload
