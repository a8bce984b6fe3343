import Qubits.Numeric.DComplex

/-!
The arithmetic of a state-vector simulation, as two classes: `RealScalar R` for the real numbers
it computes with (norms, probabilities, phases, thresholds) and `Amplitude R K` for complex
amplitudes `K` over them. The simulator is written once against these classes. Doubles and pairs
of doubles form the instance that runs, each operation being the IEEE sequence that fixes its
bits; exact real and complex numbers form an instance too, over which the simulator's laws hold
without rounding.
-/

namespace Qubits

class RealScalar (R : Type) extends Add R, Sub R, Mul R, Div R, Neg R where
  ofFloat : Float → R
  ofInt : Int → R
  intFits : Int → Bool
  sqrt : R → R
  /-- The square, computed as a general power `x ^ 2`. -/
  powTwo : R → R
  powNat? : R → Nat → Option R
  floorRem : R → R → R
  pi : R
  isZero : R → Bool
  lt : R → R → Bool

class Amplitude (R : outParam Type) (K : Type) extends Add K, Sub K, Mul K, Neg K where
  zero : K
  I : K
  ofReal : R → K
  re : K → R
  im : K → R
  abs : K → R
  exp : K → K
  divReal : K → R → K
  quot? : K → K → Option K
  isZero : K → Bool

instance : RealScalar Float where
  ofFloat x := x
  ofInt := Binary64.ofInt
  intFits := Binary64.intFits
  sqrt := Float.sqrt
  powTwo x := Float.pow x 2.0
  powNat? := Binary64.powNat?
  floorRem := Binary64.floorRem
  pi := 3.141592653589793
  isZero x := x == 0.0
  lt a b := a < b

instance : Amplitude Float DComplex where
  zero := ⟨0.0, 0.0⟩
  I := DComplex.I
  ofReal := DComplex.ofReal
  re z := z.re
  im z := z.im
  abs := DComplex.abs
  exp := DComplex.exp
  divReal := DComplex.divReal
  quot? := DComplex.quot
  isZero := DComplex.isZero

end Qubits
