import Qubits.Script.Session
import Qubits.Gate

namespace Qubits.Script

open StateVector

variable {R K : Type} [RealScalar R] [Amplitude R K]

def allocate (n : Int) : Run R K Nat := do
  let _ ← ofExcept (registerSize n)
  pure n.toNat

def oneQubitStep (g : Gate.OneQubit) (n : Int) (q : Int) (a : Array K) : Run R K (Array K) := do
  if g = .id then pure a
  else
    if g = .h then emit (.hadamardOn q)
    let n ← allocate n
    ofExcept (g.apply n q a)

def hadamardAllStep (n : Int) (a : Array K) : Run R K (Array K) := do
  emit (.hadamardUpTo (n - 1))
  if n ≤ 0 then fail (.unboundLocal "B")
  else
    let n ← allocate n
    ofExcept (Gate.hadamardAll n a)

def rootPhaseStep (n : Int) (q : Int) (k : Numeral) (a : Array K) : Run R K (Array K) := do
  let n ← allocate n
  let b ← ofExcept (Gate.phaseRoot n q k.toReal a)
  emit (.rootPhaseOn q k)
  pure b

def controlledNotStep (n : Int) (c t : Int) (a : Array K) : Run R K (Array K) := do
  let n ← allocate n
  let b ← ofExcept (Gate.controlledNot n c t a)
  emit (.controlledNotOn c t)
  pure b

def controlledPhaseStep (n : Int) (c t : Int) (k : Numeral) (a : Array K) :
    Run R K (Array K) := do
  let n ← allocate n
  let b ← ofExcept (Gate.controlledPhase n c t k.toReal a)
  emit (.controlledPhaseOn c t k)
  pure b

def signStep (index : Int) (a : Array K) : Run R K (Array K) := do
  let b ← ofExcept (Gate.negateAt index a)
  emit (.signFlip index)
  pure b

def reverseStep (n : Int) (a : Array K) : Run R K (Array K) := do
  let n ← allocate n
  ofExcept (Gate.reverseQubits n a)

def fourierStep (n : Int) (i f : Int) (dir : R) (a : Array K) : Run R K (Array K) := do
  let n ← allocate n
  ofExcept (Gate.fourierBlock n i f dir a)

/-- Row `j` of the Fourier transform of size `count` with direction `dir`; a negative size is a
fault. -/
def fourierRowStep (dir : R) (count : Int) (j : Int) : Run R K (Array K) :=
  if count < 0 then fail .negativeDimension else pure (Gate.fourierRow dir count.toNat j)

/-- The command words whose gates print no gate line of their own when their result is shown. -/
def quietWords : List String := ["cx", "sk", "csk", "Sign", "QFT", "IQFT", "h"]

def nonzeroEntries (n : Nat) (b : Array K) : Except Fault (List (Nat × K)) :=
  (List.range (Nat.pow 2 n)).filterMapM fun k => do
    let x ← read b k
    pure (if Amplitude.isZero x then none else some (k, x))

/-- Make `b` the state after a gate named by `word`: print the gate line (on the qubit of the last
loop) unless the word is quiet, list the state when `verbose` is 1, and set both the state and
the vector the reports read. -/
def showState (word : String) (n : Int) (verbose : Int) (b : Array K) : Run R K Unit := do
  if !quietWords.contains word then emit (.gateOn word (← cursorQubit))
  if verbose == 1 then
    if n < 0 then fail .fractionalCount
    emit (.stateAfter n.toNat (← ofExcept (nonzeroEntries n.toNat b)))
  modify fun s => { s with state := some b, report := some b }

end Qubits.Script
