import Qubits.Proofs.FourierBlock
import Qubits.Proofs.Controlled
import Qubits.Proofs.Permutation

/-!
# The Fourier transform as a circuit

The Fourier transform of a whole register is also a circuit of the script's own kernels: the
reversal of the qubit order, then for each qubit `i` from the lowest the controlled phases
`e^(iπ/2^(i-j))` from qubit `i` to every lower qubit `j`, followed by a Hadamard gate on `i`
(`fourierGates`). The mirror circuit, the gates in the opposite order with the phases negated,
is the inverse transform (`inverseFourierGates`).

A circuit of kernels acts on the amplitudes as the composition of its gates' actions
(`runGates_eq`). After the reversal, the first `m` stages apply the transform of the `m` lowest
qubits with its rows read in bit-reversed order (`actAll_fourierStages`): stage `m` doubles the
size of that transform, the Hadamard gate splitting each row into an even and an odd one and the
controlled phases supplying the twiddle factor of the odd one (`onQubit_stagedFourier`). The mirror
circuit undoes the forward one gate by gate, and the two transforms undo each other, which gives
the inverse transform.
-/

namespace Qubits.Gate

open Finset StateVector Bits ComplexConjugate

/-! ## Circuits of kernels -/

inductive CircuitGate where
  | hadamard (q : ℕ)
  | controlledPhase (c t : ℕ) (k : ℤ)
  | reverse
  deriving Repr, DecidableEq

section Run

variable {R K : Type} [RealScalar R] [Amplitude R K]

def CircuitGate.apply (n : ℕ) : CircuitGate → Array K → Except Fault (Array K)
  | .hadamard q => Gate.hadamard n q
  | .controlledPhase c t k => Gate.controlledPhase n c t (RealScalar.ofInt k)
  | .reverse => reverseQubits n

def runGates (n : ℕ) (gates : List CircuitGate) (a : Array K) : Except Fault (Array K) :=
  gates.foldlM (fun a g => g.apply n a) a

end Run

/-- Stage `i` of the Fourier circuit: the controlled phases `e^(iπ/2^(i-j))` from qubit `i` to
each lower qubit `j`, the lowest first, then the Hadamard gate on qubit `i`. -/
def fourierStage (i : ℕ) : List CircuitGate :=
  (List.range i).map (fun j => .controlledPhase i j (2 ^ (i - j))) ++ [.hadamard i]

def fourierGates (n : ℕ) : List CircuitGate :=
  .reverse :: (List.range n).flatMap fourierStage

/-- Stage `i` of the inverse circuit: the Hadamard gate on qubit `i`, then the controlled phases
`e^(-iπ/2^(i-j))` from qubit `i` to each lower qubit `j`, the highest first. -/
def inverseStage (i : ℕ) : List CircuitGate :=
  .hadamard i :: (List.range i).reverse.map (fun j => .controlledPhase i j (-(2 ^ (i - j))))

def inverseFourierGates (n : ℕ) : List CircuitGate :=
  (List.range n).reverse.flatMap inverseStage ++ [.reverse]

/-! ## What a circuit does to the amplitudes -/

noncomputable def CircuitGate.act (n : ℕ) : CircuitGate → (ℕ → ℂ) → ℕ → ℂ
  | .hadamard q => onQubit hadamardMatrix q
  | .controlledPhase c t k => cphaseAct c t (Complex.exp (Real.pi * Complex.I / (k : ℝ)))
  | .reverse => fun f i => f (reverseBits n i)

/-- A gate fits an `n`-qubit register: a Hadamard gate acts on one of its qubits, and a phase
`e^(iπ/k)` has `k ≠ 0`. -/
def CircuitGate.Fits (n : ℕ) : CircuitGate → Prop
  | .hadamard q => q < n
  | .controlledPhase _ _ k => k ≠ 0
  | .reverse => True

noncomputable def actAll (n : ℕ) (gates : List CircuitGate) (f : ℕ → ℂ) : ℕ → ℂ :=
  gates.foldl (fun f g => g.act n f) f

@[simp] theorem actAll_nil (n : ℕ) (f : ℕ → ℂ) : actAll n [] f = f := rfl

@[simp] theorem actAll_cons (n : ℕ) (g : CircuitGate) (gates : List CircuitGate) (f : ℕ → ℂ) :
    actAll n (g :: gates) f = actAll n gates (g.act n f) := rfl

@[simp] theorem actAll_append (n : ℕ) (gates gates' : List CircuitGate) (f : ℕ → ℂ) :
    actAll n (gates ++ gates') f = actAll n gates' (actAll n gates f) :=
  List.foldl_append

variable {n : ℕ}

theorem CircuitGate.apply_eq {g : CircuitGate} (fits : g.Fits n) {a : Array ℂ}
    (ha : a.size = 2 ^ n) : g.apply n a = .ok (tabulate (2 ^ n) (g.act n (amp a))) := by
  cases g with
  | hadamard q => exact hadamard_eq fits ha
  | controlledPhase c t k =>
    rw [CircuitGate.apply, Exact.ofInt_eq]
    exact controlledPhase_eq (Int.cast_ne_zero.mpr fits) ha
  | reverse => exact reverseQubits_eq ha

theorem CircuitGate.act_congr {g : CircuitGate} (fits : g.Fits n) {f f' : ℕ → ℂ}
    (h : ∀ i < 2 ^ n, f i = f' i) : ∀ i < 2 ^ n, g.act n f i = g.act n f' i := by
  cases g with
  | hadamard q => exact onQubit_congr fits hadamardMatrix h
  | controlledPhase c t k =>
    intro i hi
    simp [CircuitGate.act, cphaseAct, h i hi]
  | reverse =>
    intro i _
    exact h _ (reverseBits_lt n i)

theorem actAll_congr :
    ∀ {gates : List CircuitGate}, (∀ g ∈ gates, g.Fits n) → ∀ {f f' : ℕ → ℂ},
      (∀ i < 2 ^ n, f i = f' i) → ∀ i < 2 ^ n, actAll n gates f i = actAll n gates f' i
  | [], _, _, _, h => h
  | g :: _, fits, _, _, h =>
    actAll_congr (fun g' mem => fits g' (List.mem_cons_of_mem g mem))
      (CircuitGate.act_congr (fits g List.mem_cons_self) h)

theorem runGates_eq :
    ∀ {gates : List CircuitGate}, (∀ g ∈ gates, g.Fits n) → ∀ {a : Array ℂ}, a.size = 2 ^ n →
      runGates n gates a = .ok (tabulate (2 ^ n) (actAll n gates (amp a)))
  | [], _, a, ha => by simp [runGates, tabulate_amp ha]
  | g :: gates, fits, a, ha => by
    have rest : ∀ g' ∈ gates, g'.Fits n := fun g' mem => fits g' (List.mem_cons_of_mem g mem)
    rw [runGates, List.foldlM_cons, CircuitGate.apply_eq (fits g List.mem_cons_self) ha, ok_bind]
    rw [← runGates, runGates_eq rest (size_tabulate _ _), actAll_cons]
    congr 1
    apply tabulate_congr
    apply actAll_congr rest
    intro i hi
    simp [hi]

/-! ## The phases of a stage -/

theorem prod_pow_testBit {M : Type} [CommMonoid M] (ω : M) (y : ℕ) :
    ∀ m, ∏ j ∈ range m, (if y.testBit j then ω ^ 2 ^ j else 1) = ω ^ (y % 2 ^ m)
  | 0 => by simp [Nat.mod_one]
  | m + 1 => by
    rw [prod_range_succ, prod_pow_testBit ω y m, Nat.mod_pow_succ, pow_add,
      Nat.testBit_eq_decide_div_mod_eq]
    rcases Nat.mod_two_eq_zero_or_one (y / 2 ^ m) with bit | bit <;> simp [bit]

theorem exp_pi_div_two_pow {i j : ℕ} (hj : j ≤ i) :
    Complex.exp (Real.pi * Complex.I / (((2 ^ (i - j) : ℤ) : ℝ) : ℂ)) =
      fourierRoot 1 (2 ^ (i + 1)) ^ 2 ^ j := by
  obtain ⟨d, rfl⟩ := Nat.exists_eq_add_of_le hj
  rw [fourierRoot, ← Complex.exp_nat_mul, Nat.add_sub_cancel_left]
  congr 1
  push_cast
  field_simp
  ring

theorem actAll_stagePhases (i : ℕ) (F : ℕ → ℂ) (y : ℕ) : ∀ m ≤ i,
    actAll n ((List.range m).map fun j => CircuitGate.controlledPhase i j (2 ^ (i - j))) F y =
      (∏ j ∈ range m, if y.testBit i && y.testBit j then fourierRoot 1 (2 ^ (i + 1)) ^ 2 ^ j
        else 1) * F y
  | 0, _ => by simp
  | m + 1, hm => by
    rw [List.range_succ, List.map_append, actAll_append, List.map_singleton, actAll_cons,
      actAll_nil]
    simp only [CircuitGate.act, cphaseAct]
    rw [actAll_stagePhases i F y m (by omega), exp_pi_div_two_pow (by omega), prod_range_succ]
    ring

theorem actAll_fourierStage (i : ℕ) (F : ℕ → ℂ) :
    actAll n (fourierStage i) F = onQubit hadamardMatrix i
      (fun y => (if y.testBit i then fourierRoot 1 (2 ^ (i + 1)) ^ (y % 2 ^ i) else 1) * F y) := by
  rw [fourierStage, actAll_append, actAll_cons, actAll_nil]
  show onQubit hadamardMatrix i _ = _
  congr 1
  funext y
  rw [actAll_stagePhases i F y i le_rfl]
  cases y.testBit i <;> simp [prod_pow_testBit]

/-! ## Doubling the transform -/

/-- The amplitudes after the first `m` stages of the Fourier circuit, from the amplitudes `f`
after the reversal: the Fourier transform of the `m` lowest qubits, its rows taken in
bit-reversed order. -/
noncomputable def stagedFourier (m : ℕ) (f : ℕ → ℂ) (i : ℕ) : ℂ :=
  ∑ j ∈ range (2 ^ m),
    fourierEntry 1 (2 ^ m) (reverseBits m j) (i % 2 ^ m) * f (i / 2 ^ m * 2 ^ m + j)

theorem stagedFourier_zero (f : ℕ → ℂ) : stagedFourier 0 f = f := by
  funext i
  simp [stagedFourier, fourierEntry, reverseBits]

section Index
variable {m r : ℕ}

theorem exists_eq_mul_two_pow_add (y m : ℕ) :
    ∃ (q : ℕ) (b : Bool) (r : ℕ), r < 2 ^ m ∧ y = (2 * q + b.toNat) * 2 ^ m + r := by
  refine ⟨y / 2 ^ m / 2, decide (y / 2 ^ m % 2 = 1), y % 2 ^ m, Nat.mod_lt _ (by positivity), ?_⟩
  have bit : (decide (y / 2 ^ m % 2 = 1)).toNat = y / 2 ^ m % 2 := by
    rcases Nat.mod_two_eq_zero_or_one (y / 2 ^ m) with h | h <;> simp [h]
  rw [bit, Nat.div_add_mod, Nat.div_add_mod']

theorem mul_two_pow_add_div (P : ℕ) (hr : r < 2 ^ m) : (P * 2 ^ m + r) / 2 ^ m = P := by
  rw [mul_comm, Nat.mul_add_div (by positivity), Nat.div_eq_of_lt hr, add_zero]

theorem mul_two_pow_add_mod (P : ℕ) (hr : r < 2 ^ m) : (P * 2 ^ m + r) % 2 ^ m = r := by
  rw [mul_comm, Nat.mul_add_mod, Nat.mod_eq_of_lt hr]

theorem testBit_mul_two_pow_add (P : ℕ) (hr : r < 2 ^ m) :
    (P * 2 ^ m + r).testBit m = decide (P % 2 = 1) := by
  rw [Nat.testBit_eq_decide_div_mod_eq, mul_two_pow_add_div P hr]

theorem clearNat_mul_two_pow_add (q : ℕ) (b : Bool) (hr : r < 2 ^ m) :
    clearNat ((2 * q + b.toNat) * 2 ^ m + r) m = 2 * q * 2 ^ m + r := by
  rw [clearNat, testBit_mul_two_pow_add _ hr, Nat.pow_eq]
  cases b with
  | false => simp
  | true =>
    simp only [Bool.toNat_true, Nat.mul_add_mod_self_left, decide_true, if_true]
    rw [add_mul, one_mul]
    omega

theorem setNat_mul_two_pow_add (q : ℕ) (b : Bool) (hr : r < 2 ^ m) :
    setNat ((2 * q + b.toNat) * 2 ^ m + r) m = (2 * q + 1) * 2 ^ m + r := by
  rw [setNat, testBit_mul_two_pow_add _ hr, Nat.pow_eq]
  cases b with
  | false =>
    simp only [Bool.toNat_false, add_zero, Nat.mul_mod_right, zero_ne_one, decide_false]
    rw [if_neg Bool.false_ne_true, add_mul, one_mul]
    omega
  | true => simp

theorem reverseBits_two_pow_add (j : ℕ) :
    reverseBits m (2 ^ m + j) = reverseBits m j := by
  apply Nat.eq_of_testBit_eq
  intro i
  by_cases hi : i < m
  · simp [hi, Nat.testBit_two_pow_add_gt (show m - 1 - i < m by omega)]
  · simp [hi]

end Index

theorem stagedFourier_at (m : ℕ) (f : ℕ → ℂ) (P : ℕ) {r : ℕ} (hr : r < 2 ^ m) :
    stagedFourier m f (P * 2 ^ m + r) =
      ∑ j ∈ range (2 ^ m), fourierEntry 1 (2 ^ m) (reverseBits m j) r * f (P * 2 ^ m + j) := by
  simp only [stagedFourier, mul_two_pow_add_div P hr, mul_two_pow_add_mod P hr]

theorem fourierRoot_sq (m : ℕ) : fourierRoot 1 (2 ^ (m + 1)) ^ 2 = fourierRoot 1 (2 ^ m) := by
  rw [fourierRoot, fourierRoot, ← Complex.exp_nat_mul]
  congr 1
  push_cast
  field_simp
  ring

theorem fourierRoot_pow_two_pow (m : ℕ) : fourierRoot 1 (2 ^ (m + 1)) ^ 2 ^ m = -1 := by
  rw [fourierRoot, ← Complex.exp_nat_mul, ← Complex.exp_pi_mul_I]
  congr 1
  push_cast
  field_simp
  ring

theorem sqrt_two_pow_succ (m : ℕ) :
    ((Real.sqrt ((2 ^ (m + 1) : ℕ) : ℝ) : ℝ) : ℂ) =
      (Real.sqrt ((2 : ℕ) : ℝ) : ℂ) * (Real.sqrt ((2 ^ m : ℕ) : ℝ) : ℂ) := by
  rw [← Complex.ofReal_mul, ← Real.sqrt_mul (Nat.cast_nonneg 2), ← Nat.cast_mul, pow_succ,
    mul_comm]

section Rows
variable (b : Bool) (m s r : ℕ)

theorem hadamardMatrix_mul_fourierEntry :
    hadamardMatrix b false * fourierEntry 1 (2 ^ m) s r =
      fourierEntry 1 (2 ^ (m + 1)) (2 * s) (b.toNat * 2 ^ m + r) := by
  have exponent : 2 * s * (b.toNat * 2 ^ m + r) = 2 * (s * r) + 2 ^ m * 2 * (s * b.toNat) := by
    ring
  rw [fourierEntry_eq_pow, fourierEntry_eq_pow, sqrt_two_pow_succ, exponent, ← fourierRoot_sq m]
  set ω := fourierRoot 1 (2 ^ (m + 1))
  have cycle : ω ^ (2 ^ m * 2 * (s * b.toNat)) = 1 := by
    rw [pow_mul ω (2 ^ m * 2), pow_mul ω (2 ^ m), fourierRoot_pow_two_pow m]
    norm_num
  rw [pow_add, cycle, mul_one, pow_mul ω 2 (s * r)]
  simp [hadamardMatrix]
  ring

theorem hadamardMatrix_mul_root_mul_fourierEntry :
    hadamardMatrix b true * (fourierRoot 1 (2 ^ (m + 1)) ^ r * fourierEntry 1 (2 ^ m) s r) =
      fourierEntry 1 (2 ^ (m + 1)) (2 * s + 1) (b.toNat * 2 ^ m + r) := by
  have exponent : (2 * s + 1) * (b.toNat * 2 ^ m + r) =
      2 * (s * r) + r + 2 ^ m * b.toNat + 2 ^ m * 2 * (s * b.toNat) := by
    ring
  rw [fourierEntry_eq_pow, fourierEntry_eq_pow, sqrt_two_pow_succ, exponent, ← fourierRoot_sq m]
  set ω := fourierRoot 1 (2 ^ (m + 1))
  have half : ω ^ 2 ^ m = -1 := fourierRoot_pow_two_pow m
  have cycle : ω ^ (2 ^ m * 2 * (s * b.toNat)) = 1 := by
    rw [pow_mul ω (2 ^ m * 2), pow_mul ω (2 ^ m), half]
    norm_num
  rw [pow_add, pow_add, pow_add, cycle, mul_one, pow_mul ω 2 (s * r), pow_mul ω (2 ^ m), half]
  cases b <;> simp [hadamardMatrix] <;> ring

end Rows

theorem stagedFourier_succ_at (f : ℕ → ℂ) (q : ℕ) {m r : ℕ} (hr : r < 2 ^ (m + 1)) :
    stagedFourier (m + 1) f (q * 2 ^ (m + 1) + r) =
      ∑ j ∈ range (2 ^ m),
        (fourierEntry 1 (2 ^ (m + 1)) (2 * reverseBits m j) r * f (2 * q * 2 ^ m + j) +
          fourierEntry 1 (2 ^ (m + 1)) (2 * reverseBits m j + 1) r *
            f ((2 * q + 1) * 2 ^ m + j)) := by
  have halves : range (2 ^ (m + 1)) = range (2 ^ m + 2 ^ m) := by rw [pow_succ, mul_two]
  rw [stagedFourier_at (m + 1) f q hr, halves, sum_range_add, ← sum_add_distrib]
  refine sum_congr rfl fun j hj => ?_
  have low : j.testBit m = false := Nat.testBit_lt_two_pow (mem_range.mp hj)
  have lower : q * 2 ^ (m + 1) + j = 2 * q * 2 ^ m + j := by ring
  have upper : q * 2 ^ (m + 1) + (2 ^ m + j) = (2 * q + 1) * 2 ^ m + j := by ring
  simp [reverseBits_succ, low, Nat.testBit_two_pow_add_eq, reverseBits_two_pow_add, lower, upper]

theorem onQubit_stagedFourier (m : ℕ) (f : ℕ → ℂ) :
    onQubit hadamardMatrix m (fun y =>
      (if y.testBit m then fourierRoot 1 (2 ^ (m + 1)) ^ (y % 2 ^ m) else 1) *
        stagedFourier m f y) = stagedFourier (m + 1) f := by
  funext y
  obtain ⟨q, b, r, hr, rfl⟩ := exists_eq_mul_two_pow_add y m
  have bit : ((2 * q + b.toNat) * 2 ^ m + r).testBit m = b := by
    cases b <;> simp [testBit_mul_two_pow_add _ hr]
  have even : (2 * q * 2 ^ m + r).testBit m = false := by simp [testBit_mul_two_pow_add _ hr]
  have odd : ((2 * q + 1) * 2 ^ m + r).testBit m = true := by
    simp [testBit_mul_two_pow_add _ hr]
  have whole : (2 * q + b.toNat) * 2 ^ m + r = q * 2 ^ (m + 1) + (b.toNat * 2 ^ m + r) := by ring
  have top : b.toNat * 2 ^ m + r < 2 ^ (m + 1) := by
    cases b <;> simp [pow_succ] <;> omega
  simp only [onQubit, bit, clearNat_mul_two_pow_add q b hr, setNat_mul_two_pow_add q b hr, even,
    odd, mul_two_pow_add_mod _ hr, if_true, Bool.false_eq_true, if_false, one_mul]
  rw [stagedFourier_at m f _ hr, stagedFourier_at m f _ hr, whole, stagedFourier_succ_at f q top,
    mul_sum, mul_sum, mul_sum, ← sum_add_distrib]
  refine sum_congr rfl fun j _ => ?_
  rw [← hadamardMatrix_mul_fourierEntry b m, ← hadamardMatrix_mul_root_mul_fourierEntry b m]
  ring

theorem actAll_fourierStages (F : ℕ → ℂ) :
    ∀ m, actAll n ((List.range m).flatMap fourierStage) F = stagedFourier m F
  | 0 => by simp [stagedFourier_zero]
  | m + 1 => by
    rw [List.range_succ, List.flatMap_append, actAll_append, actAll_fourierStages F m,
      List.flatMap_singleton, actAll_fourierStage, onQubit_stagedFourier]

theorem blockFourier_whole (dir : ℝ) (F : ℕ → ℂ) {i : ℕ} (hi : i < 2 ^ n) :
    blockFourier dir 0 n F i = ∑ j ∈ range (2 ^ n), fourierEntry dir (2 ^ n) j i * F j := by
  simp [blockFourier, blockValue, withBlock, blockIndex, Nat.mod_eq_of_lt hi, Nat.div_eq_of_lt hi,
    Nat.mod_one]

theorem actAll_fourierGates (F : ℕ → ℂ) {i : ℕ} (hi : i < 2 ^ n) :
    actAll n (fourierGates n) F i = blockFourier 1 0 n F i := by
  calc actAll n (fourierGates n) F i
      = stagedFourier n (fun x => F (reverseBits n x)) (0 * 2 ^ n + i) := by
        rw [fourierGates, actAll_cons, actAll_fourierStages, zero_mul, zero_add]
        rfl
    _ = ∑ j ∈ range (2 ^ n), fourierEntry 1 (2 ^ n) (reverseBits n j) i * F (reverseBits n j) := by
        rw [stagedFourier_at n _ 0 hi]
        simp
    _ = ∑ j ∈ range (2 ^ n), fourierEntry 1 (2 ^ n) j i * F j :=
        sum_reverseBits n fun j => fourierEntry 1 (2 ^ n) j i * F j
    _ = blockFourier 1 0 n F i := (blockFourier_whole 1 F hi).symm

theorem fourierGates_fit : ∀ g ∈ fourierGates n, g.Fits n := by
  intro g mem
  simp only [fourierGates, fourierStage, List.mem_cons, List.mem_flatMap, List.mem_range,
    List.mem_append, List.mem_map, List.not_mem_nil, or_false] at mem
  rcases mem with rfl | ⟨i, hi, ⟨j, -, rfl⟩ | rfl⟩
  · trivial
  · exact pow_ne_zero _ two_ne_zero
  · exact hi

/-! ## The inverse circuit -/

def CircuitGate.inverse : CircuitGate → CircuitGate
  | .hadamard q => .hadamard q
  | .controlledPhase c t k => .controlledPhase c t (-k)
  | .reverse => .reverse

theorem inverseFourierGates_eq (n : ℕ) :
    inverseFourierGates n = ((fourierGates n).map CircuitGate.inverse).reverse := by
  have stage : inverseStage = fun i => ((fourierStage i).map CircuitGate.inverse).reverse := by
    funext i
    simp [inverseStage, fourierStage, CircuitGate.inverse]
  simp [inverseFourierGates, fourierGates, stage, List.reverse_flatMap, List.map_flatMap,
    CircuitGate.inverse, Function.comp_def]

theorem onQubit_hadamardMatrix_hadamardMatrix (p : ℕ) (f : ℕ → ℂ) :
    onQubit hadamardMatrix p (onQubit hadamardMatrix p f) = f := by
  have half : (Real.sqrt 2 : ℂ)⁻¹ * (Real.sqrt 2 : ℂ)⁻¹ = 1 / 2 := by
    rw [← mul_inv, ← Complex.ofReal_mul, Real.mul_self_sqrt zero_le_two]
    norm_num
  funext i
  cases bit : i.testBit p with
  | false =>
    simp [onQubit, hadamardMatrix, bit, clearNat_of_testBit bit]
    linear_combination (2 * f i) * half
  | true =>
    simp [onQubit, hadamardMatrix, bit, setNat_of_testBit bit]
    linear_combination (2 * f i) * half

theorem CircuitGate.fits_inverse {g : CircuitGate} (fits : g.Fits n) : g.inverse.Fits n := by
  cases g with
  | controlledPhase c t k => exact neg_ne_zero.mpr fits
  | _ => exact fits

theorem CircuitGate.act_inverse {g : CircuitGate} (f : ℕ → ℂ) {i : ℕ} (hi : i < 2 ^ n) :
    g.inverse.act n (g.act n f) i = f i := by
  cases g with
  | hadamard q => exact congrFun (onQubit_hadamardMatrix_hadamardMatrix q f) i
  | controlledPhase c t k =>
    simp only [CircuitGate.inverse, CircuitGate.act, cphaseAct]
    split
    · rw [← mul_assoc, ← Complex.exp_add, Int.cast_neg, Complex.ofReal_neg, div_neg,
        neg_add_cancel, Complex.exp_zero, one_mul]
    · rw [one_mul, one_mul]
  | reverse => exact congrArg f (reverseBits_reverseBits hi)

theorem actAll_inverse_cancel :
    ∀ {gates : List CircuitGate}, (∀ g ∈ gates, g.Fits n) → ∀ (f : ℕ → ℂ), ∀ i < 2 ^ n,
      actAll n (gates.map CircuitGate.inverse).reverse (actAll n gates f) i = f i
  | [], _, _ => fun _ _ => rfl
  | g :: gates, fits, f => by
    intro i hi
    have head := fits g List.mem_cons_self
    have rest : ∀ g' ∈ gates, g'.Fits n := fun g' mem => fits g' (List.mem_cons_of_mem g mem)
    rw [List.map_cons, List.reverse_cons, actAll_append, actAll_cons, actAll_cons, actAll_nil,
      CircuitGate.act_congr (CircuitGate.fits_inverse head)
        (actAll_inverse_cancel rest (g.act n f)) i hi]
    exact CircuitGate.act_inverse f hi

theorem conj_fourierEntry (N j k : ℕ) : conj (fourierEntry 1 N j k) = fourierEntry (-1) N j k := by
  simp only [fourierEntry, map_div₀, ← Complex.exp_conj, Complex.conj_ofReal, map_mul, map_natCast,
    Complex.conj_I]
  push_cast
  ring_nf

theorem blockFourier_inverse (F : ℕ → ℂ) {i : ℕ} (hi : i < 2 ^ n) :
    blockFourier 1 0 n (blockFourier (-1) 0 n F) i = F i := by
  -- the columns of the transform are orthonormal, as its rows are and it is symmetric
  have columns : ∀ l ∈ range (2 ^ n), ∑ j ∈ range (2 ^ n),
      fourierEntry 1 (2 ^ n) j i * fourierEntry (-1) (2 ^ n) l j = if i = l then 1 else 0 := by
    intro l hl
    rw [← sum_fourierEntry_mul_conj (Or.inl rfl) (by positivity) hi (mem_range.mp hl)]
    refine sum_congr rfl fun j _ => ?_
    rw [fourierEntry_comm 1 _ j i, conj_fourierEntry, fourierEntry_comm (-1) _ l j]
  calc blockFourier 1 0 n (blockFourier (-1) 0 n F) i
      = ∑ j ∈ range (2 ^ n), fourierEntry 1 (2 ^ n) j i *
          ∑ l ∈ range (2 ^ n), fourierEntry (-1) (2 ^ n) l j * F l := by
        rw [blockFourier_whole 1 _ hi]
        exact sum_congr rfl fun j hj => by rw [blockFourier_whole (-1) F (mem_range.mp hj)]
    _ = ∑ l ∈ range (2 ^ n), (∑ j ∈ range (2 ^ n),
          fourierEntry 1 (2 ^ n) j i * fourierEntry (-1) (2 ^ n) l j) * F l := by
        simp only [mul_sum, sum_mul, mul_assoc]
        exact sum_comm
    _ = ∑ l ∈ range (2 ^ n), (if i = l then 1 else 0) * F l :=
        sum_congr rfl fun l hl => by rw [columns l hl]
    _ = F i := by simp [hi]

theorem inverseFourierGates_fit : ∀ g ∈ inverseFourierGates n, g.Fits n := by
  rw [inverseFourierGates_eq]
  simp only [List.mem_reverse, List.mem_map]
  rintro _ ⟨g, mem, rfl⟩
  exact CircuitGate.fits_inverse (fourierGates_fit g mem)

/-! ## The circuits compute the transforms -/

/-- On every vector of the register's size, the Fourier circuit computes the Fourier transform of
the whole register, and the mirror circuit the inverse transform. -/
theorem runGates_fourierGates_eq_fourierBlock {a : Array ℂ} (ha : a.size = 2 ^ n) :
    runGates n (fourierGates n) a = fourierBlock n 0 ((n : ℤ) - 1) (1 : ℝ) a ∧
      runGates n (inverseFourierGates n) a = fourierBlock n 0 ((n : ℤ) - 1) (-1 : ℝ) a := by
  have forward := fourierBlock_eq (n := n) 1 (Nat.zero_le n) le_rfl ha
  have backward := fourierBlock_eq (n := n) (-1) (Nat.zero_le n) le_rfl ha
  rw [Nat.cast_zero] at forward backward
  rw [forward, backward, runGates_eq fourierGates_fit ha, runGates_eq inverseFourierGates_fit ha]
  constructor
  · congr 1
    exact tabulate_congr fun i hi => actAll_fourierGates (amp a) hi
  · congr 1
    apply tabulate_congr
    intro i hi
    -- the forward circuit sends the inverse transform of the input back to the input, and the
    -- mirror circuit undoes the forward one
    set g := blockFourier (-1) 0 n (amp a)
    have back : ∀ j < 2 ^ n, amp a j = actAll n (fourierGates n) g j := fun j hj =>
      ((actAll_fourierGates g hj).trans (blockFourier_inverse (amp a) hj)).symm
    rw [actAll_congr inverseFourierGates_fit back i hi, inverseFourierGates_eq]
    exact actAll_inverse_cancel fourierGates_fit g i hi

theorem runGates_fourierGates_two_qubits :
    (#[0, 1, 0, 0] : Array ℂ).size = 2 ^ 2 ∧
      (runGates 2 (fourierGates 2) (#[0, 1, 0, 0] : Array ℂ) =
          fourierBlock 2 0 ((2 : ℕ) - 1 : ℤ) (1 : ℝ) #[0, 1, 0, 0] ∧
        runGates 2 (inverseFourierGates 2) (#[0, 1, 0, 0] : Array ℂ) =
          fourierBlock 2 0 ((2 : ℕ) - 1 : ℤ) (-1 : ℝ) #[0, 1, 0, 0]) :=
  ⟨by simp, runGates_fourierGates_eq_fourierBlock (by simp)⟩

end Qubits.Gate
