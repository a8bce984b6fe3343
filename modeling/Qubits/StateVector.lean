import Qubits.Amplitude
import Qubits.Bits

namespace Qubits.StateVector

variable {R K : Type} [RealScalar R] [Amplitude R K]

def zeros (size : Nat) : Array K := Array.replicate size Amplitude.zero

omit [RealScalar R] in
@[simp] theorem size_zeros (size : Nat) : (zeros size : Array K).size = size := by
  simp [zeros]

def read {α : Type} (a : Array α) (j : Nat) : Except Fault α :=
  if h : j < a.size then .ok a[j] else .error (.indexOutOfBounds j a.size)

theorem read_of_lt {α : Type} {a : Array α} {j : Nat} (h : j < a.size) : read a j = .ok a[j] := by
  simp [read, h]

/-- The position an index of either sign refers to: a negative index counts back from the end.
An index must fit a signed machine word; one that only fits an unsigned word overflows, and a larger
one is no index at all. -/
def resolve (a : Array K) (j : Int) : Except Fault Nat :=
  if j ≥ Int.pow 2 64 ∨ j < -Int.pow 2 63 then .error .invalidIndex
  else if j ≥ Int.pow 2 63 then .error .indexOverflow
  else if 0 ≤ j ∧ j < a.size then .ok j.toNat
  else if j < 0 ∧ -j ≤ a.size then .ok (a.size - j.natAbs)
  else .error (.indexOutOfBounds j a.size)

def accumulate (a : Array K) (j : Nat) (v : K) : Except Fault (Array K) :=
  if h : j < a.size then .ok (a.set j (a[j] + v)) else .error (.indexOutOfBounds j a.size)

omit [RealScalar R] in
theorem accumulate_of_lt {a : Array K} {j : Nat} (h : j < a.size) (v : K) :
    accumulate a j v = .ok (a.set j (a[j] + v)) := by
  simp [accumulate, h]

def write (a : Array K) (j : Nat) (v : K) : Except Fault (Array K) :=
  if h : j < a.size then .ok (a.set j v) else .error (.indexOutOfBounds j a.size)

omit [RealScalar R] in
theorem write_of_lt {a : Array K} {j : Nat} (h : j < a.size) (v : K) :
    write a j v = .ok (a.set j v) := by
  simp [write, h]

/-- The number of amplitudes of an `n`-qubit register, `2^n`, as an array allocation sees it:
a negative `n` gives a fractional size, and sizes from `2^59` up exceed the addressable bytes. -/
def registerSize (n : Int) : Except Fault Nat :=
  if n < 0 then
    let k := n.natAbs
    let size := if k > 1100 then 0.0 else Binary64.roundRatio false 1 (Nat.pow 2 k) 0
    .error (.fractionalDimension size)
  else if n ≥ 63 then .error .dimensionTooLarge
  else if n ≥ 59 then .error .arrayTooBig
  else .ok (Nat.pow 2 n.toNat)

/-- Run `body` on the nonzero amplitudes of `a` at positions `0, 1, …, count - 1` in order,
threading the vector `b` it builds; reading past the end of `a` is a fault. -/
def sweep (a : Array K) (count : Nat) (b : Array K)
    (body : Array K → Nat → K → Except Fault (Array K)) : Except Fault (Array K) :=
  (List.range count).foldlM (fun b j => do
    let x ← read a j
    if Amplitude.isZero x then pure b else body b j x) b

end Qubits.StateVector
