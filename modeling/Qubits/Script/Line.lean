import Qubits.Amplitude

namespace Qubits.Script

/-- A number as the script shows it: an integer, or a double for a fractional input. -/
inductive Numeral where
  | int (n : Int)
  | real (x : Float)
  deriving Inhabited

def Numeral.toReal {R : Type} [RealScalar R] : Numeral → R
  | .int n => RealScalar.ofInt n
  | .real x => RealScalar.ofFloat x

inductive Line (R K : Type) where
  | plotSetting (k : Int)
  | printoutSetting (k : Int)
  | inverseThreshold (k : Int)
  | threshold (p : R)
  | qubitCount (n : Nat)
  | initialState (n : Nat) (entries : List (Nat × K))
  | hadamardOn (q : Int)
  | hadamardUpTo (last : Int)
  | rootPhaseOn (q : Int) (k : Numeral)
  | controlledNotOn (c t : Int)
  | controlledPhaseOn (c t : Int) (k : Numeral)
  | signFlip (index : Int)
  /-- A gate named by its command word, on the qubit last looped over. -/
  | gateOn (word : String) (q : Int)
  | stateAfter (n : Nat) (entries : List (Nat × K))
  | fourierStart (inverse : Bool) (i f : Int)
  | fourierEnd (inverse : Bool)
  | measureOn (q : Int)
  | finalHeader (p : R)
  | finalEntry (n k : Nat) (p : R) (amplitude : K)
  /-- The measured qubits, after a blank line; the count decides singular or plural. -/
  | measuredQubits (count : Nat) (qubits : List Nat)
  | outcomeProbability (label : String) (p : R)
  | outcomeState (terms : List (K × String))
  | plotting
  | done
  deriving Inhabited

end Qubits.Script
