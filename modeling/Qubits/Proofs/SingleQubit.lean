import Qubits.Proofs.Scatter
import Qubits.Proofs.BasisIndex
import Qubits.Gate

/-!
# Gates on one qubit

Every one-qubit kernel acts on an `n`-qubit register as a `2 × 2` matrix `u` on qubit `p`
(`onQubit u p`): the amplitude at index `i` mixes the two amplitudes at the indices that agree
with `i` off qubit `p`, weighted by the row of `u` that bit `p` of `i` selects. The kernels come
in three families, the Hadamard gate, the bit flips and the diagonal phases, and each family is
proved to be its matrix once (`hadamard_eq`, `flip_eq`, `diagonal_eq`), whence every gate word
of the script (`OneQubit.apply_eq`). A unitary matrix keeps the total probability
(`sum_norm_onQubit`), and matrices on different qubits commute (`onQubit_comm`).
-/

namespace Qubits.Gate

open Finset StateVector Bits ComplexConjugate

/-! ## Matrices on one qubit -/

def onQubit (u : Bool → Bool → ℂ) (p : ℕ) (f : ℕ → ℂ) (i : ℕ) : ℂ :=
  u (i.testBit p) false * f (clearNat i p) + u (i.testBit p) true * f (setNat i p)

def qubitEntry (u : Bool → Bool → ℂ) (p i j : ℕ) : ℂ :=
  if clearNat i p = clearNat j p then u (i.testBit p) (j.testBit p) else 0

theorem qubitEntry_column (u : Bool → Bool → ℂ) (p i j : ℕ) :
    qubitEntry u p i j =
      (if i = clearNat j p then u false (j.testBit p) else 0) +
        (if i = setNat j p then u true (j.testBit p) else 0) := by
  unfold qubitEntry
  by_cases hc : i = clearNat j p
  · subst hc
    simp [clearNat_ne_setNat]
  · by_cases hs : i = setNat j p
    · subst hs
      simp [Ne.symm (clearNat_ne_setNat j p)]
    · have apart : clearNat i p ≠ clearNat j p := fun h =>
        (eq_or_eq_of_clearNat_eq h).elim hc hs
      simp [apart, hc, hs]

theorem sum_qubitEntry {n p i : ℕ} (hp : p < n) (hi : i < 2 ^ n) (u : Bool → Bool → ℂ)
    (f : ℕ → ℂ) :
    ∑ j ∈ range (2 ^ n), qubitEntry u p i j * f j = onQubit u p f i := by
  rw [sum_eq_add_of_mem (clearNat i p) (setNat i p) (mem_range.mpr (clearNat_lt hi))
    (mem_range.mpr (setNat_lt hi hp)) (clearNat_ne_setNat i p)]
  · simp [qubitEntry, onQubit]
  · intro j _ hj
    have apart : clearNat i p ≠ clearNat j p := fun h =>
      (eq_or_eq_of_clearNat_eq h.symm).elim hj.1 hj.2
    simp [qubitEntry, apart]

theorem onQubit_congr {n p : ℕ} (hp : p < n) (u : Bool → Bool → ℂ) {f g : ℕ → ℂ}
    (h : ∀ i < 2 ^ n, f i = g i) : ∀ i < 2 ^ n, onQubit u p f i = onQubit u p g i := by
  intro i hi
  simp [onQubit, h _ (clearNat_lt hi), h _ (setNat_lt hi hp)]

/-! ## The three families of kernels -/

noncomputable def hadamardMatrix (r c : Bool) : ℂ :=
  (if r && c then -1 else 1) / (Real.sqrt (2 : ℕ) : ℂ)

/-- The matrix that moves value `c` of the qubit to `!c`, times `toOne` on the way to 1 and
`toZero` on the way to 0. -/
def flipMatrix (toOne toZero : ℂ) (r c : Bool) : ℂ :=
  if r = c then 0 else if r then toOne else toZero

def diagonalMatrix (phase : ℂ) (r c : Bool) : ℂ :=
  if r = c then (if r then phase else 1) else 0

theorem position_natCast (p : ℕ) : position (p : ℤ) = .ok p := by
  simp [position]

theorem invSqrtTwo_eq : (invSqrtTwo : ℝ) = 1 / Real.sqrt 2 := by
  simp [invSqrtTwo]

theorem hadamard_eq {n p : ℕ} (hp : p < n) {a : Array ℂ} (ha : a.size = 2 ^ n) :
    hadamard n p a = .ok (tabulate (2 ^ n) (onQubit hadamardMatrix p (amp a))) := by
  unfold hadamard
  simp only [Nat.pow_eq]
  rw [sweep_eq (N := 2 ^ n) (qubitEntry hadamardMatrix p) ha.ge (by simp [zeros])]
  · congr 1
    apply tabulate_congr
    intro i hi
    rw [zeros_eq, amp_tabulate, if_pos hi, zero_add, sum_qubitEntry hp hi]
  intro c j hc hj _
  have hset : setNat j p < c.size := hc ▸ setNat_lt hj hp
  have hclear : clearNat j p < c.size := hc ▸ clearNat_lt hj
  simp only [position_natCast, ok_bind]
  split
  · rename_i bit
    rw [accumulate_pair hclear (hc ▸ hj), hc]
    congr 1
    apply tabulate_congr
    intro i _
    rw [qubitEntry_column, setNat_of_testBit bit]
    simp [hadamardMatrix, bit, invSqrtTwo_eq, add_mul, div_eq_mul_inv]
  · rename_i bit
    rw [accumulate_pair (hc ▸ hj) hset, hc]
    congr 1
    apply tabulate_congr
    intro i _
    rw [qubitEntry_column, clearNat_of_testBit (by simpa using bit)]
    simp [hadamardMatrix, bit, invSqrtTwo_eq, add_mul, div_eq_mul_inv]

theorem flip_eq {n p : ℕ} (hp : p < n) {a : Array ℂ} (ha : a.size = 2 ^ n)
    {toOne toZero : ℂ → ℂ} (α β : ℂ) (one : ∀ x, toOne x = α * x) (zero : ∀ x, toZero x = β * x) :
    flip toOne toZero n p a = .ok (tabulate (2 ^ n) (onQubit (flipMatrix α β) p (amp a))) := by
  unfold flip
  simp only [Nat.pow_eq]
  rw [sweep_eq (N := 2 ^ n) (qubitEntry (flipMatrix α β) p) ha.ge (by simp [zeros])]
  · congr 1
    apply tabulate_congr
    intro i hi
    rw [zeros_eq, amp_tabulate, if_pos hi, zero_add, sum_qubitEntry hp hi]
  intro c j hc hj _
  simp only [position_natCast, ok_bind]
  split
  · rename_i bit
    rw [accumulate_eq (hc ▸ clearNat_lt hj), hc]
    congr 1
    apply tabulate_congr
    intro i _
    rw [qubitEntry_column]
    simp [flipMatrix, bit, zero]
  · rename_i bit
    rw [accumulate_eq (hc ▸ setNat_lt hj hp), hc]
    congr 1
    apply tabulate_congr
    intro i _
    rw [qubitEntry_column]
    simp [flipMatrix, bit, one]

theorem diagonal_eq {n p : ℕ} (hp : p < n) {a : Array ℂ} (ha : a.size = 2 ^ n)
    {phase : ℂ → ℂ} (φ : ℂ) (scale : ∀ x, phase x = φ * x) :
    diagonal phase n p a = .ok (tabulate (2 ^ n) (onQubit (diagonalMatrix φ) p (amp a))) := by
  unfold diagonal
  simp only [Nat.pow_eq]
  rw [sweep_eq (N := 2 ^ n) (qubitEntry (diagonalMatrix φ) p) ha.ge (by simp [zeros])]
  · congr 1
    apply tabulate_congr
    intro i hi
    rw [zeros_eq, amp_tabulate, if_pos hi, zero_add, sum_qubitEntry hp hi]
  intro c j hc hj _
  simp only [position_natCast, ok_bind]
  rw [accumulate_eq (hc ▸ hj), hc]
  congr 1
  apply tabulate_congr
  intro i _
  rw [qubitEntry_column]
  cases bit : j.testBit p
  · simp [diagonalMatrix, clearNat_of_testBit bit]
  · simp [diagonalMatrix, setNat_of_testBit bit, scale]

theorem onQubit_diagonalMatrix (φ : ℂ) (p : ℕ) (f : ℕ → ℂ) (i : ℕ) :
    onQubit (diagonalMatrix φ) p f i = (if i.testBit p then φ else 1) * f i := by
  cases bit : i.testBit p <;>
    simp [onQubit, diagonalMatrix, bit, clearNat_of_testBit, setNat_of_testBit]

/-! ## The gates of the script -/

theorem tPhase_eq : (tPhase : ℂ) = (1 + Complex.I) / (Real.sqrt 2 : ℂ) := by
  simp [tPhase, invSqrtTwo_eq, div_eq_inv_mul]

theorem tdgPhase_eq : (tdgPhase : ℂ) = (1 - Complex.I) / (Real.sqrt 2 : ℂ) := by
  simp [tdgPhase, invSqrtTwo_eq, div_eq_inv_mul]

noncomputable def OneQubit.matrix : OneQubit → Bool → Bool → ℂ
  | .id => diagonalMatrix 1
  | .h => hadamardMatrix
  | .x => flipMatrix 1 1
  | .y => flipMatrix Complex.I (-Complex.I)
  | .z => diagonalMatrix (-1)
  | .s => diagonalMatrix Complex.I
  | .sdg => diagonalMatrix (-Complex.I)
  | .t => diagonalMatrix ((1 + Complex.I) / (Real.sqrt (2 : ℕ) : ℂ))
  | .tdg => diagonalMatrix ((1 - Complex.I) / (Real.sqrt (2 : ℕ) : ℂ))

theorem OneQubit.apply_eq (g : OneQubit) {n p : ℕ} (hp : p < n) {a : Array ℂ}
    (ha : a.size = 2 ^ n) :
    g.apply n p a = .ok (tabulate (2 ^ n) (onQubit g.matrix p (amp a))) := by
  cases g with
  | id =>
    have same : ∀ i < 2 ^ n, amp a i = onQubit (diagonalMatrix 1) p (amp a) i := by
      intro i _
      simp [onQubit_diagonalMatrix]
    simp only [apply, matrix, ← tabulate_congr same, tabulate_amp ha]
  | h => exact hadamard_eq hp ha
  | x => exact flip_eq hp ha 1 1 (by simp) (by simp)
  | y => exact flip_eq hp ha Complex.I (-Complex.I) (by simp) (by simp)
  | z => exact diagonal_eq hp ha (-1) (by simp)
  | s => exact diagonal_eq hp ha Complex.I (by simp)
  | sdg => exact diagonal_eq hp ha (-Complex.I) (by simp)
  | t => exact diagonal_eq hp ha _ (by simp [tPhase_eq])
  | tdg => exact diagonal_eq hp ha _ (by simp [tdgPhase_eq])

/-! ## The phase `e^(iπ/k)` -/

theorem rootPhase_eq {k : ℝ} (hk : k ≠ 0) :
    rootPhase (K := ℂ) k = .ok (Complex.exp (Real.pi * Complex.I / k)) := by
  simp [rootPhase, hk]

theorem rootPhase_zero : rootPhase (K := ℂ) 0 = .error .complexDivisionByZero := by
  simp [rootPhase]

theorem norm_exp_pi_mul_I_div (k : ℝ) : ‖Complex.exp (Real.pi * Complex.I / k)‖ = 1 := by
  rw [show (Real.pi : ℂ) * Complex.I / k = ((Real.pi / k : ℝ) : ℂ) * Complex.I by
    push_cast
    ring]
  exact Complex.norm_exp_ofReal_mul_I _

theorem phaseRoot_eq {n p : ℕ} (hp : p < n) {k : ℝ} (hk : k ≠ 0) {a : Array ℂ}
    (ha : a.size = 2 ^ n) :
    phaseRoot n p k a = .ok (tabulate (2 ^ n)
      (onQubit (diagonalMatrix (Complex.exp (Real.pi * Complex.I / k))) p (amp a))) := by
  unfold phaseRoot
  rw [rootPhase_eq hk, ok_bind]
  exact diagonal_eq hp ha _ fun _ => rfl

/-! ## Unitarity -/

structure IsUnitary (u : Bool → Bool → ℂ) : Prop where
  column_false : u false false * conj (u false false) + u true false * conj (u true false) = 1
  column_true : u false true * conj (u false true) + u true true * conj (u true true) = 1
  orthogonal : u false false * conj (u false true) + u true false * conj (u true true) = 0

theorem IsUnitary.pair_norm {u : Bool → Bool → ℂ} (unitary : IsUnitary u) (x y : ℂ) :
    ‖u false false * x + u false true * y‖ ^ 2 + ‖u true false * x + u true true * y‖ ^ 2 =
      ‖x‖ ^ 2 + ‖y‖ ^ 2 := by
  simp only [Complex.sq_norm]
  apply Complex.ofReal_injective
  simp only [Complex.ofReal_add, ← Complex.mul_conj, map_add, map_mul]
  have orthogonal' := congrArg conj unitary.orthogonal
  simp only [map_add, map_mul, Complex.conj_conj, map_zero] at orthogonal'
  linear_combination (x * conj x) * unitary.column_false + (y * conj y) * unitary.column_true +
    (x * conj y) * unitary.orthogonal + (y * conj x) * orthogonal'

theorem sum_norm_onQubit {n p : ℕ} (hp : p < n) {u : Bool → Bool → ℂ} (unitary : IsUnitary u)
    (f : ℕ → ℂ) :
    ∑ i ∈ range (2 ^ n), ‖onQubit u p f i‖ ^ 2 = ∑ i ∈ range (2 ^ n), ‖f i‖ ^ 2 := by
  rw [sum_pairs hp, sum_pairs hp (fun i => ‖f i‖ ^ 2)]
  apply sum_congr rfl
  intro i hi
  have clear : i.testBit p = false := (mem_filter.mp hi).2
  simpa [onQubit, clear, clearNat_of_testBit clear] using unitary.pair_norm (f i) (f (setNat i p))

theorem isUnitary_diagonalMatrix {φ : ℂ} (unit : φ * conj φ = 1) :
    IsUnitary (diagonalMatrix φ) :=
  ⟨by simp [diagonalMatrix], by simp [diagonalMatrix, unit], by simp [diagonalMatrix]⟩

theorem isUnitary_diagonalMatrix_of_norm {φ : ℂ} (unit : ‖φ‖ = 1) :
    IsUnitary (diagonalMatrix φ) := by
  apply isUnitary_diagonalMatrix
  rw [Complex.mul_conj, Complex.normSq_eq_norm_sq, unit]
  simp

theorem isUnitary_flipMatrix {α β : ℂ} (unitα : α * conj α = 1) (unitβ : β * conj β = 1) :
    IsUnitary (flipMatrix α β) :=
  ⟨by simp [flipMatrix, unitα], by simp [flipMatrix, unitβ], by simp [flipMatrix]⟩

theorem isUnitary_hadamardMatrix : IsUnitary hadamardMatrix := by
  have half : (Real.sqrt 2 : ℂ) * Real.sqrt 2 = 2 := by
    rw [← Complex.ofReal_mul, Real.mul_self_sqrt (by norm_num)]
    norm_num
  have nonzero : (Real.sqrt 2 : ℂ) ≠ 0 := by
    exact_mod_cast (Real.sqrt_pos.mpr (by norm_num : (0 : ℝ) < 2)).ne'
  refine ⟨?_, ?_, ?_⟩ <;> simp [hadamardMatrix, Complex.conj_ofReal] <;> field_simp
  · linear_combination -half
  · linear_combination -half
  · ring

theorem OneQubit.isUnitary_matrix (g : OneQubit) : IsUnitary g.matrix := by
  have root : ((Real.sqrt 2 : ℂ)) * conj (Real.sqrt 2 : ℂ) = 2 := by
    rw [Complex.conj_ofReal, ← Complex.ofReal_mul, Real.mul_self_sqrt (by norm_num)]
    norm_num
  have nonzero : (Real.sqrt 2 : ℂ) ≠ 0 := by
    exact_mod_cast (Real.sqrt_pos.mpr (by norm_num : (0 : ℝ) < 2)).ne'
  cases g with
  | h => exact isUnitary_hadamardMatrix
  | x => exact isUnitary_flipMatrix (by simp) (by simp)
  | y => exact isUnitary_flipMatrix (by simp) (by simp)
  | t =>
    apply isUnitary_diagonalMatrix
    rw [map_div₀, div_mul_div_comm, Nat.cast_ofNat, root]
    simp [Complex.ext_iff]
  | tdg =>
    apply isUnitary_diagonalMatrix
    rw [map_div₀, div_mul_div_comm, Nat.cast_ofNat, root]
    simp [Complex.ext_iff]
  | _ => exact isUnitary_diagonalMatrix (by simp)

/-! ## Gates on different qubits -/

theorem onQubit_comm {p q : ℕ} (hpq : p ≠ q) (u v : Bool → Bool → ℂ) (f : ℕ → ℂ) :
    onQubit u p (onQubit v q f) = onQubit v q (onQubit u p f) := by
  funext i
  simp only [onQubit, testBit_clearNat, testBit_setNat, hpq, Ne.symm hpq, ne_eq,
    not_false_eq_true, decide_true, decide_false, Bool.and_true, Bool.or_false]
  rw [clearNat_comm i p q, clearNat_setNat_comm hpq i, clearNat_setNat_comm (Ne.symm hpq) i,
    setNat_comm i p q]
  ring

def onQubits (u : Bool → Bool → ℂ) (qs : List ℕ) (f : ℕ → ℂ) : ℕ → ℂ :=
  qs.foldl (fun f q => onQubit u q f) f

theorem onQubits_congr {n : ℕ} (u : Bool → Bool → ℂ) :
    ∀ (qs : List ℕ), (∀ q ∈ qs, q < n) → ∀ {f g : ℕ → ℂ}, (∀ i < 2 ^ n, f i = g i) →
      ∀ i < 2 ^ n, onQubits u qs f i = onQubits u qs g i
  | [], _, _, _, h => h
  | q :: qs, hqs, _, _, h =>
    onQubits_congr u qs (fun r hr => hqs r (by simp [hr]))
      (onQubit_congr (hqs q (by simp)) u h)

theorem OneQubit.foldlM_apply_eq (g : OneQubit) {n : ℕ} :
    ∀ (qs : List ℕ) {a : Array ℂ}, (∀ q ∈ qs, q < n) → a.size = 2 ^ n →
      qs.foldlM (fun a (q : ℕ) => g.apply n q a) a =
        .ok (tabulate (2 ^ n) (onQubits g.matrix qs (amp a)))
  | [], _, _, ha => by simp [onQubits, tabulate_amp ha]
  | q :: qs, a, hqs, ha => by
    rw [List.foldlM_cons, g.apply_eq (hqs q (by simp)) ha, ok_bind,
      g.foldlM_apply_eq qs (fun r hr => hqs r (by simp [hr])) (size_tabulate _ _)]
    congr 1
    apply tabulate_congr
    apply onQubits_congr g.matrix qs (fun r hr => hqs r (by simp [hr]))
    intro i hi
    simp [hi]

/-! ## The kernels entry by entry -/

theorem onQubit_hadamardMatrix (p : ℕ) (f : ℕ → ℂ) (i : ℕ) :
    onQubit hadamardMatrix p f i =
      (f (clearNat i p) + (-1) ^ (i.testBit p).toNat * f (setNat i p)) / Real.sqrt 2 := by
  cases bit : i.testBit p <;> simp [onQubit, hadamardMatrix, bit] <;> ring

theorem onQubit_flipMatrix (α β : ℂ) (p : ℕ) (f : ℕ → ℂ) (i : ℕ) :
    onQubit (flipMatrix α β) p f i = (if i.testBit p then α else β) * f (i ^^^ 2 ^ p) := by
  rw [← flipNat_eq_xor]
  cases bit : i.testBit p <;> simp [onQubit, flipMatrix, flipNat, bit]

theorem onQubit_diagonalMatrix_pow (φ : ℂ) (p : ℕ) (f : ℕ → ℂ) (i : ℕ) :
    onQubit (diagonalMatrix φ) p f i = φ ^ (i.testBit p).toNat * f i := by
  rw [onQubit_diagonalMatrix]
  cases i.testBit p <;> simp

/-- Every one-qubit kernel, entry by entry. At index `j`, with `b` the bit `q` of `j`: the
Hadamard gate mixes the two amplitudes that agree with `j` off qubit `q`, the second with the
sign `(-1)^b`; the bit flips read the amplitude at `j` with bit `q` flipped; and each phase gate
multiplies the amplitude at `j` by its phase to the power `b`. Each result has `2^n` entries,
and the skipped zero amplitudes play no part. -/
theorem oneQubit_kernels_entrywise {n q : ℕ} (hq : q < n) {a : Array ℂ} (ha : a.size = 2 ^ n)
    {k : ℝ} (hk : k ≠ 0) :
    hadamard n q a = .ok (tabulate (2 ^ n) fun j =>
      (amp a (clearNat j q) + (-1) ^ (j.testBit q).toNat * amp a (setNat j q)) / Real.sqrt 2) ∧
    pauliX n q a = .ok (tabulate (2 ^ n) fun j => amp a (j ^^^ 2 ^ q)) ∧
    pauliY n q a = .ok (tabulate (2 ^ n) fun j =>
      (if j.testBit q then Complex.I else -Complex.I) * amp a (j ^^^ 2 ^ q)) ∧
    pauliZ n q a = .ok (tabulate (2 ^ n) fun j => (-1) ^ (j.testBit q).toNat * amp a j) ∧
    phaseS n q a = .ok (tabulate (2 ^ n) fun j => Complex.I ^ (j.testBit q).toNat * amp a j) ∧
    phaseSdg n q a =
      .ok (tabulate (2 ^ n) fun j => (-Complex.I) ^ (j.testBit q).toNat * amp a j) ∧
    phaseT n q a = .ok (tabulate (2 ^ n) fun j =>
      ((1 + Complex.I) / Real.sqrt 2) ^ (j.testBit q).toNat * amp a j) ∧
    phaseTdg n q a = .ok (tabulate (2 ^ n) fun j =>
      ((1 - Complex.I) / Real.sqrt 2) ^ (j.testBit q).toNat * amp a j) ∧
    phaseRoot n q k a = .ok (tabulate (2 ^ n) fun j =>
      Complex.exp (Real.pi * Complex.I / k) ^ (j.testBit q).toNat * amp a j) := by
  -- each kernel is its family's matrix on qubit `q`; the entry lemmas above read the matrices
  have flips : ∀ α β : ℂ, flip (α * ·) (β * ·) n q a =
      .ok (tabulate (2 ^ n) fun j => (if j.testBit q then α else β) * amp a (j ^^^ 2 ^ q)) := by
    intro α β
    rw [flip_eq hq ha α β (fun _ => rfl) (fun _ => rfl)]
    exact congrArg _ (tabulate_congr fun j _ => onQubit_flipMatrix α β q (amp a) j)
  have phases : ∀ {phase : ℂ → ℂ} (φ : ℂ), (∀ x, phase x = φ * x) → diagonal phase n q a =
      .ok (tabulate (2 ^ n) fun j => φ ^ (j.testBit q).toNat * amp a j) := by
    intro phase φ scale
    rw [diagonal_eq hq ha φ scale]
    exact congrArg _ (tabulate_congr fun j _ => onQubit_diagonalMatrix_pow φ q (amp a) j)
  refine ⟨?_, ?_, flips _ _, phases (-1) (by simp), phases _ (fun _ => rfl),
    phases _ (fun _ => rfl), phases _ (by simp [tPhase_eq]), phases _ (by simp [tdgPhase_eq]), ?_⟩
  · rw [hadamard_eq hq ha]
    exact congrArg _ (tabulate_congr fun j _ => onQubit_hadamardMatrix q (amp a) j)
  · have identity := flips 1 1
    simp only [one_mul, ite_self] at identity
    exact identity
  · rw [phaseRoot_eq hq hk ha]
    exact congrArg _ (tabulate_congr fun j _ => onQubit_diagonalMatrix_pow _ q (amp a) j)

theorem oneQubit_kernels_entrywise_one_qubit :
    0 < 1 ∧ (#[1, 0] : Array ℂ).size = 2 ^ 1 ∧ (1 : ℝ) ≠ 0 ∧
    hadamard 1 0 (#[1, 0] : Array ℂ) = .ok (tabulate (2 ^ 1) fun j =>
      (amp #[1, 0] (clearNat j 0) + (-1) ^ (j.testBit 0).toNat * amp #[1, 0] (setNat j 0)) /
        Real.sqrt 2) ∧
    pauliX 1 0 (#[1, 0] : Array ℂ) = .ok (tabulate (2 ^ 1) fun j => amp #[1, 0] (j ^^^ 2 ^ 0)) ∧
    pauliY 1 0 (#[1, 0] : Array ℂ) = .ok (tabulate (2 ^ 1) fun j =>
      (if j.testBit 0 then Complex.I else -Complex.I) * amp #[1, 0] (j ^^^ 2 ^ 0)) ∧
    pauliZ 1 0 (#[1, 0] : Array ℂ) =
      .ok (tabulate (2 ^ 1) fun j => (-1) ^ (j.testBit 0).toNat * amp #[1, 0] j) ∧
    phaseS 1 0 (#[1, 0] : Array ℂ) =
      .ok (tabulate (2 ^ 1) fun j => Complex.I ^ (j.testBit 0).toNat * amp #[1, 0] j) ∧
    phaseSdg 1 0 (#[1, 0] : Array ℂ) =
      .ok (tabulate (2 ^ 1) fun j => (-Complex.I) ^ (j.testBit 0).toNat * amp #[1, 0] j) ∧
    phaseT 1 0 (#[1, 0] : Array ℂ) = .ok (tabulate (2 ^ 1) fun j =>
      ((1 + Complex.I) / Real.sqrt 2) ^ (j.testBit 0).toNat * amp #[1, 0] j) ∧
    phaseTdg 1 0 (#[1, 0] : Array ℂ) = .ok (tabulate (2 ^ 1) fun j =>
      ((1 - Complex.I) / Real.sqrt 2) ^ (j.testBit 0).toNat * amp #[1, 0] j) ∧
    phaseRoot 1 0 (1 : ℝ) (#[1, 0] : Array ℂ) = .ok (tabulate (2 ^ 1) fun j =>
      Complex.exp (Real.pi * Complex.I / (1 : ℝ)) ^ (j.testBit 0).toNat * amp #[1, 0] j) :=
  ⟨by decide, by simp, one_ne_zero,
    oneQubit_kernels_entrywise (n := 1) (q := 0) (by decide) (by simp) one_ne_zero⟩

end Qubits.Gate
