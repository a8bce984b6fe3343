import Qubits.Gate
import Qubits.Text.IntLiteral

/-!
A small circuit runner: a list of commands `init n`, `h q` and `x q`, read after trimming blanks
and folding case, acts on a register that starts as one qubit in `|0⟩`. `init` replaces the
register by `n` qubits in `|0…0⟩` (one qubit when `n` is missing or not an integer); `h` and `x`
apply their gate, and are skipped when the qubit is missing or not an integer. Blank commands and
other words change nothing. The run answers the register size, the state and the probability
`|a_j|²` of each basis state.
-/

namespace Qubits.Circuit

variable {R K : Type} [RealScalar R] [Amplitude R K]

structure Outcome (R K : Type) where
  size : Nat
  state : Array K
  probabilities : Array R

/-- A letter folded to lower case; only ASCII letters change. A letter outside ASCII never folds
to an ASCII letter, except the Kelvin sign, which no command word contains. -/
def foldCase (c : Char) : Char := c.toLower

def isWord (w : String) (target : String) : Bool :=
  (w.toList.map foldCase) == target.toList

def ground (n : Int) : Except Fault (Nat × Array K) := do
  let size ← StateVector.registerSize n
  let a : Array K := StateVector.zeros size
  pure (n.toNat, a.setIfInBounds 0 (Amplitude.ofReal (RealScalar.ofInt 1)))

/-- A gate of the runner on a register of `n` qubits: the vector of `2 ^ n` amplitudes it fills is
allocated before the old one is read, so a register that cannot be allocated fails first. -/
def applyGate (g : Gate.OneQubit) (n q : Int) (a : Array K) : Except Fault (Array K) := do
  let _ ← StateVector.registerSize n
  g.apply n.toNat q a

def argument (words : List String) : Option Int :=
  match words with
  | _ :: arg :: _ => (Text.readInt arg).toOption
  | _ => none

def step (reg : Nat × Array K) (command : String) : Except Fault (Nat × Array K) := do
  let words := Text.words (Text.trimBlank command)
  match words with
  | [] => pure reg
  | w :: _ =>
    if isWord w "init" then ground ((argument words).getD 1)
    else if isWord w "h" then
      match argument words with
      | some q => pure (reg.1, ← applyGate .h reg.1 q reg.2)
      | none => pure reg
    else if isWord w "x" then
      match argument words with
      | some q => pure (reg.1, ← applyGate .x reg.1 q reg.2)
      | none => pure reg
    else pure reg

def probabilities (a : Array K) : Array R :=
  a.map fun x => Amplitude.abs x * Amplitude.abs x

def run (commands : List String) : Except Fault (Outcome R K) := do
  let start ← ground (K := K) 1
  let (n, a) ← commands.foldlM step start
  pure ⟨n, a, probabilities a⟩

/-- The number of qubits of a state vector of the given length: `⌊log2 length⌋` as the double
logarithm gives it; a vector without entries has none. -/
def qubitsOfLength (length : Int) : Except Fault Nat :=
  if length ≤ 0 then .error .mathDomain
  else .ok (Float.log2 (Binary64.ofInt length)).floor.toUInt64.toNat

end Qubits.Circuit
