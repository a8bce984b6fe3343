import Qubits.StateVector

/-!
The gate kernels of an `n`-qubit register. The gates on one qubit, the controlled gates on two
qubits and the Fourier transform on a block of qubits build a fresh vector of `2^n` zeros and
visit the nonzero amplitudes `x = a[j]` in increasing `j`, adding to the new vector what `x`
contributes; skipping the zero amplitudes changes nothing, as they contribute zero. The sign flip
of one basis state works in place, and the reversal of the qubit order moves the amplitude of `j`
to the index whose bits are those of `j` read backwards.
-/

namespace Qubits.Gate

open StateVector

variable {R K : Type} [RealScalar R] [Amplitude R K]

def invSqrtTwo : R := RealScalar.ofInt 1 / RealScalar.sqrt (RealScalar.ofInt 2)

def hadamard (n : Nat) (q : Int) (a : Array K) : Except Fault (Array K) :=
  let h : R := invSqrtTwo
  sweep a (Nat.pow 2 n) (zeros (Nat.pow 2 n)) fun b j x => do
    let p ← Bits.position q
    if j.testBit p then
      let b ← accumulate b (Bits.clearNat j p) (Amplitude.ofReal h * x)
      accumulate b j (Amplitude.ofReal (-h) * x)
    else
      let b ← accumulate b j (Amplitude.ofReal h * x)
      accumulate b (Bits.setNat j p) (Amplitude.ofReal h * x)

def hadamardAll (n : Nat) (a : Array K) : Except Fault (Array K) :=
  if n = 0 then .error (.unboundLocal "B")
  else (List.range n).foldlM (fun a (q : Nat) => hadamard n q a) a

/-- The gate that sends the amplitude at `j` to `j` with qubit `q` flipped, multiplied by
`toOne` when the qubit is 0 and by `toZero` when it is 1. -/
def flip (toOne toZero : K → K) (n : Nat) (q : Int) (a : Array K) : Except Fault (Array K) :=
  sweep a (Nat.pow 2 n) (zeros (Nat.pow 2 n)) fun b j x => do
    let p ← Bits.position q
    if j.testBit p then accumulate b (Bits.clearNat j p) (toZero x)
    else accumulate b (Bits.setNat j p) (toOne x)

def pauliX (n : Nat) (q : Int) (a : Array K) : Except Fault (Array K) :=
  flip id id n q a

def pauliY (n : Nat) (q : Int) (a : Array K) : Except Fault (Array K) :=
  flip (Amplitude.I * ·) ((-Amplitude.I) * ·) n q a

def diagonal (phase : K → K) (n : Nat) (q : Int) (a : Array K) : Except Fault (Array K) :=
  sweep a (Nat.pow 2 n) (zeros (Nat.pow 2 n)) fun b j x => do
    let p ← Bits.position q
    accumulate b j (if j.testBit p then phase x else x)

def pauliZ (n : Nat) (q : Int) (a : Array K) : Except Fault (Array K) :=
  diagonal (- ·) n q a

def phaseS (n : Nat) (q : Int) (a : Array K) : Except Fault (Array K) :=
  diagonal (Amplitude.I * ·) n q a

def phaseSdg (n : Nat) (q : Int) (a : Array K) : Except Fault (Array K) :=
  diagonal ((-Amplitude.I) * ·) n q a

def tPhase : K :=
  Amplitude.ofReal (invSqrtTwo (R := R)) * (Amplitude.ofReal (RealScalar.ofInt 1) + Amplitude.I)

def tdgPhase : K :=
  Amplitude.ofReal (invSqrtTwo (R := R)) * (Amplitude.ofReal (RealScalar.ofInt 1) - Amplitude.I)

def phaseT (n : Nat) (q : Int) (a : Array K) : Except Fault (Array K) :=
  diagonal (tPhase * ·) n q a

def phaseTdg (n : Nat) (q : Int) (a : Array K) : Except Fault (Array K) :=
  diagonal (tdgPhase * ·) n q a

def rootPhase (k : R) : Except Fault K :=
  match Amplitude.quot? (Amplitude.ofReal RealScalar.pi * Amplitude.I) (Amplitude.ofReal k) with
  | some z => .ok (Amplitude.exp z)
  | none => .error .complexDivisionByZero

def phaseRoot (n : Nat) (q : Int) (k : R) (a : Array K) : Except Fault (Array K) := do
  let w ← rootPhase (K := K) k
  diagonal (w * ·) n q a

inductive OneQubit where
  | id | h | x | y | z | s | sdg | t | tdg
  deriving Repr, DecidableEq, Inhabited

def OneQubit.apply (g : OneQubit) (n : Nat) (q : Int) (a : Array K) : Except Fault (Array K) :=
  match g with
  | .id => .ok a
  | .h => hadamard n q a
  | .x => pauliX n q a
  | .y => pauliY n q a
  | .z => pauliZ n q a
  | .s => phaseS n q a
  | .sdg => phaseSdg n q a
  | .t => phaseT n q a
  | .tdg => phaseTdg n q a

def controlledNot (n : Nat) (c t : Int) (a : Array K) : Except Fault (Array K) :=
  sweep a (Nat.pow 2 n) (zeros (Nat.pow 2 n)) fun b j x => do
    let pc ← Bits.position c
    let pt ← Bits.position t
    if !j.testBit pc then accumulate b j x
    else if j.testBit pt then accumulate b (Bits.clearNat j pt) x
    else accumulate b (Bits.setNat j pt) x

def controlledPhase (n : Nat) (c t : Int) (k : R) (a : Array K) : Except Fault (Array K) := do
  let w ← rootPhase (K := K) k
  sweep a (Nat.pow 2 n) (zeros (Nat.pow 2 n)) fun b j x => do
    let pc ← Bits.position c
    let pt ← Bits.position t
    if j.testBit pc && j.testBit pt then accumulate b j (w * x) else accumulate b j x

def negateAt (index : Int) (a : Array K) : Except Fault (Array K) := do
  let i ← resolve a index
  let x ← read a i
  write a i (-x)

/-- Reverse the order of the `n` qubits: the amplitude at the index that the `n`-bit text of `j`
writes moves to the index that the same text read backwards writes. -/
def reverseQubits (n : Nat) (a : Array K) : Except Fault (Array K) :=
  (List.range (Nat.pow 2 n)).foldlM (fun b j => do
    let x ← read a (Bits.readBinary (Bits.binary n j))
    write b (Bits.readBinary (Bits.label n j)) x) (zeros (Nat.pow 2 n))

/-- The entry `e^(d·2πi·j·k/N)` before the normalisation by `√N`; `N` is positive. -/
def fourierPhase (dir : R) (count : Nat) (j : Int) (k : Nat) : K :=
  let turn : R := dir * RealScalar.ofInt 2 * RealScalar.pi
  let z : K := Amplitude.ofReal turn * Amplitude.I * Amplitude.ofReal (RealScalar.ofInt j) *
    Amplitude.ofReal (RealScalar.ofInt k)
  match Amplitude.quot? z (Amplitude.ofReal (RealScalar.ofInt count)) with
  | some w => Amplitude.exp w
  | none => Amplitude.zero

def fourierRow (dir : R) (count : Nat) (j : Int) : Array K :=
  let norm : R := RealScalar.sqrt (RealScalar.ofInt count)
  ((List.range count).map fun k =>
    Amplitude.divReal (fourierPhase dir count j k) norm).toArray

@[simp] theorem fourierRow_size (dir : R) (count : Nat) (j : Int) :
    (fourierRow dir count j : Array K).size = count := by
  simp [fourierRow]

/-- The Fourier transform with direction `dir` on qubits `i … f` of an `n`-qubit register. The
block and the parts below and above it need sizes `2^(f - i + 1)`, `2^i` and `2^(n - f - 1)`
that are whole numbers. -/
def fourierBlock (n : Nat) (i f : Int) (dir : R) (a : Array K) : Except Fault (Array K) := do
  if (n : Int) - f - 1 < 0 ∨ f - i + 1 < 0 ∨ i < 0 then throw .fractionalCount
  let low := i.toNat
  let high := (f + 1).toNat
  let width := Nat.pow 2 (high - low)
  let outer := (List.range (Nat.pow 2 (n - high))).flatMap fun j3 =>
    (List.range width).flatMap fun j2 => (List.range (Nat.pow 2 low)).map fun j1 => (j3, j2, j1)
  outer.foldlM (fun b (j3, j2, j1) => do
    let x ← read a (j3 * Nat.pow 2 high + j2 * Nat.pow 2 low + j1)
    if RealScalar.lt (RealScalar.ofInt 0) (Amplitude.abs x) then
      let row : Array K := fourierRow dir width j2
      (List.range row.size).foldlM (fun b k =>
        accumulate b (j3 * Nat.pow 2 high + k * Nat.pow 2 low + j1)
          (row.getD k Amplitude.zero * x)) b
    else pure b) (zeros (Nat.pow 2 n))

end Qubits.Gate
