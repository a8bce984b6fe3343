import Mathlib
import Qubits.Amplitude

/-!
# Exact arithmetic

The simulator's arithmetic classes over the real and complex numbers. Every operation is the
exact one, a double denotes the number its bits encode, the zero tests and comparisons decide the
exact relations, and a division by zero is refused where the simulator refuses it. The laws of
the simulator are stated over this instance; the simp lemmas below turn each class operation
into the operation of `ℝ` or `ℂ`, so proofs never see the classes.
-/

namespace Qubits.Exact

noncomputable def valueOf (x : Float) : ℝ :=
  match Binary64.decode x with
  | .finite negative mantissa exponent =>
    (if negative then -1 else 1) * mantissa * (2 : ℝ) ^ exponent
  | _ => 0

noncomputable instance : RealScalar ℝ where
  toAdd := inferInstance
  toSub := inferInstance
  toMul := inferInstance
  toDiv := inferInstance
  toNeg := inferInstance
  ofFloat := valueOf
  ofInt n := n
  intFits _ := true
  sqrt := Real.sqrt
  powTwo x := x ^ 2
  powNat? x k := some (x ^ k)
  floorRem x m := x - m * ⌊x / m⌋
  pi := Real.pi
  isZero x := decide (x = 0)
  lt a b := decide (a < b)

noncomputable instance : Amplitude ℝ ℂ where
  toAdd := inferInstance
  toSub := inferInstance
  toMul := inferInstance
  toNeg := inferInstance
  zero := 0
  I := Complex.I
  ofReal r := r
  re z := z.re
  im z := z.im
  abs z := ‖z‖
  exp := Complex.exp
  divReal z r := z / r
  quot? z w := if w = 0 then none else some (z / w)
  isZero z := decide (z = 0)

@[simp] theorem ofInt_eq (n : ℤ) : (RealScalar.ofInt n : ℝ) = n := rfl
@[simp] theorem sqrt_eq (x : ℝ) : RealScalar.sqrt x = Real.sqrt x := rfl
@[simp] theorem powTwo_eq (x : ℝ) : RealScalar.powTwo x = x ^ 2 := rfl
@[simp] theorem pi_eq : (RealScalar.pi : ℝ) = Real.pi := rfl
@[simp] theorem realIsZero_eq (x : ℝ) : RealScalar.isZero x = decide (x = 0) := rfl
@[simp] theorem lt_eq (x y : ℝ) : RealScalar.lt x y = decide (x < y) := rfl
@[simp] theorem intFits_eq (n : ℤ) : RealScalar.intFits (R := ℝ) n = true := rfl

@[simp] theorem zero_eq : (Amplitude.zero : ℂ) = 0 := rfl
@[simp] theorem I_eq : (Amplitude.I : ℂ) = Complex.I := rfl
@[simp] theorem ofReal_eq (r : ℝ) : (Amplitude.ofReal r : ℂ) = r := rfl
@[simp] theorem abs_eq (z : ℂ) : Amplitude.abs z = ‖z‖ := rfl
@[simp] theorem exp_eq (z : ℂ) : Amplitude.exp z = Complex.exp z := rfl
@[simp] theorem divReal_eq (z : ℂ) (r : ℝ) : Amplitude.divReal z r = z / r := rfl
@[simp] theorem isZero_eq (z : ℂ) : Amplitude.isZero z = decide (z = 0) := rfl

@[simp] theorem quot_eq (z w : ℂ) :
    Amplitude.quot? z w = if w = 0 then none else some (z / w) := rfl

end Qubits.Exact
