import Qubits.Proofs.FourierCircuit

/-!
# The gate algebra of the kernels

Over exact arithmetic each kernel of the simulator acts on the amplitudes of a register as a map
of functions (`Kernel.act`, `Kernel.apply_eq`): a one-qubit kernel as its matrix on its qubit,
the controlled NOT as a permutation of the basis, the controlled phase and the sign flip as
factors on the basis states, and the reversal as the bit-reversal permutation. A run of kernels
acts as the composition of their maps (`runKernels_eq`), so the identities the samples rely on
are identities of these maps: phases on one qubit multiply, the kernels with an involutive map
undo themselves, maps on disjoint qubits commute, and so do factors (`kernels_gate_algebra`).
-/

namespace Qubits.Gate

open Finset StateVector Bits

/-! ## Kernels -/

inductive Kernel where
  | gate (g : OneQubit) (q : ℕ)
  | root (q : ℕ) (k : ℝ)
  | cnot (c t : ℕ)
  | cphase (c t : ℕ) (k : ℝ)
  | sign (index : ℤ)
  | reverse

namespace Kernel

noncomputable def apply (n : ℕ) : Kernel → Array ℂ → Except Fault (Array ℂ)
  | gate g q => g.apply n q
  | root q k => phaseRoot n q k
  | cnot c t => controlledNot n c t
  | cphase c t k => controlledPhase n c t k
  | sign index => negateAt index
  | reverse => reverseQubits n

/-- A kernel fits an `n`-qubit register when its target is a qubit of the register, a controlled
NOT does not control its own target, a phase `e^(iπ/k)` has `k ≠ 0`, and the index of a sign
flip lies inside the vector and a signed machine word. A control may lie beyond the register:
its bit is never set there. -/
def Fits (n : ℕ) : Kernel → Prop
  | gate _ q => q < n
  | root q k => q < n ∧ k ≠ 0
  | cnot c t => t < n ∧ c ≠ t
  | cphase _ _ k => k ≠ 0
  | sign index => -(2 ^ n : ℤ) ≤ index ∧ index < 2 ^ n ∧ -(2 ^ 63 : ℤ) ≤ index ∧ index < 2 ^ 63
  | reverse => True

def qubits : Kernel → Finset ℕ
  | gate _ q | root q _ => {q}
  | cnot c t | cphase c t _ => {c, t}
  | sign _ | reverse => ∅

def Local : Kernel → Prop
  | sign _ | reverse => False
  | _ => True

def Diagonal : Kernel → Prop
  | gate g _ => g = .id ∨ g = .z ∨ g = .s ∨ g = .sdg ∨ g = .t ∨ g = .tdg
  | root .. | cphase .. | sign _ => True
  | cnot .. | reverse => False

def SelfInverse : Kernel → Prop
  | gate g _ => g = .id ∨ g = .h ∨ g = .x ∨ g = .y ∨ g = .z
  | cnot .. | sign _ | reverse => True
  | root .. | cphase .. => False

end Kernel

noncomputable def runKernels (n : ℕ) (ks : List Kernel) (a : Array ℂ) :
    Except Fault (Array ℂ) :=
  ks.foldlM (fun a k => k.apply n a) a

/-! ## What a kernel does to the amplitudes -/

noncomputable def rootOf (k : ℝ) : ℂ := Complex.exp (Real.pi * Complex.I / k)

def signPosition (n : ℕ) (index : ℤ) : ℕ :=
  if 0 ≤ index then index.toNat else 2 ^ n - index.natAbs

namespace Kernel

noncomputable def act (n : ℕ) : Kernel → (ℕ → ℂ) → ℕ → ℂ
  | gate g q => onQubit g.matrix q
  | root q k => onQubit (diagonalMatrix (rootOf k)) q
  | cnot c t => cnotAct c t
  | cphase c t k => cphaseAct c t (rootOf k)
  | sign index => fun f i => if i = signPosition n index then -f i else f i
  | reverse => fun f i => f (reverseBits n i)

noncomputable def actAll (n : ℕ) (ks : List Kernel) (f : ℕ → ℂ) : ℕ → ℂ :=
  ks.foldl (fun f k => k.act n f) f

@[simp] theorem actAll_nil (n : ℕ) (f : ℕ → ℂ) : actAll n [] f = f := rfl

@[simp] theorem actAll_cons (n : ℕ) (k : Kernel) (ks : List Kernel) (f : ℕ → ℂ) :
    actAll n (k :: ks) f = actAll n ks (k.act n f) := rfl

variable {n : ℕ}

theorem resolve_sign {index : ℤ} (fits : (sign index).Fits n) {a : Array ℂ}
    (ha : a.size = 2 ^ n) : resolve a index = .ok (signPosition n index) := by
  obtain ⟨lo, hi, wordLo, wordHi⟩ := fits
  have size : (a.size : ℤ) = 2 ^ n := by simp [ha]
  unfold resolve signPosition
  rw [if_neg (by simp only [Int.pow_eq]; omega), if_neg (by simp only [Int.pow_eq]; omega)]
  by_cases nonneg : 0 ≤ index
  · rw [if_pos ⟨nonneg, by omega⟩, if_pos nonneg]
  · rw [if_neg (by omega), if_pos ⟨by omega, by omega⟩, if_neg nonneg, ha]

theorem apply_eq {k : Kernel} (fits : k.Fits n) {a : Array ℂ} (ha : a.size = 2 ^ n) :
    k.apply n a = .ok (tabulate (2 ^ n) (k.act n (amp a))) := by
  cases k with
  | gate g q => exact g.apply_eq fits ha
  | root q k => exact phaseRoot_eq fits.1 fits.2 ha
  | cnot c t => exact controlledNot_eq fits.1 fits.2 ha
  | cphase c t k => exact controlledPhase_eq fits ha
  | sign index =>
    rw [apply, negateAt_of_resolve (resolve_sign fits ha), ha]
    rfl
  | reverse => exact reverseQubits_eq ha

theorem act_congr {k : Kernel} (fits : k.Fits n) {f f' : ℕ → ℂ} (h : ∀ i < 2 ^ n, f i = f' i) :
    ∀ i < 2 ^ n, k.act n f i = k.act n f' i := by
  intro i hi
  cases k with
  | gate g q => exact onQubit_congr fits g.matrix h i hi
  | root q k => exact onQubit_congr fits.1 _ h i hi
  | cnot c t => exact h _ (cnotIndex_lt fits.1 hi)
  | cphase c t k => simp only [act, cphaseAct, h i hi]
  | sign index => simp only [act, h i hi]
  | reverse => exact h _ (reverseBits_lt n i)

theorem actAll_congr :
    ∀ {ks : List Kernel}, (∀ k ∈ ks, k.Fits n) → ∀ {f f' : ℕ → ℂ},
      (∀ i < 2 ^ n, f i = f' i) → ∀ i < 2 ^ n, actAll n ks f i = actAll n ks f' i
  | [], _, _, _, h => h
  | k :: _, fits, _, _, h =>
    actAll_congr (fun k' mem => fits k' (List.mem_cons_of_mem k mem))
      (act_congr (fits k List.mem_cons_self) h)

end Kernel

variable {n : ℕ}

theorem runKernels_eq :
    ∀ {ks : List Kernel}, (∀ k ∈ ks, k.Fits n) → ∀ {a : Array ℂ}, a.size = 2 ^ n →
      runKernels n ks a = .ok (tabulate (2 ^ n) (Kernel.actAll n ks (amp a)))
  | [], _, a, ha => by simp [runKernels, tabulate_amp ha]
  | k :: ks, fits, a, ha => by
    have rest : ∀ k' ∈ ks, k'.Fits n := fun k' mem => fits k' (List.mem_cons_of_mem k mem)
    rw [runKernels, List.foldlM_cons, Kernel.apply_eq (fits k List.mem_cons_self) ha, ok_bind,
      ← runKernels, runKernels_eq rest (size_tabulate _ _), Kernel.actAll_cons]
    congr 1
    apply tabulate_congr
    apply Kernel.actAll_congr rest
    intro i hi
    simp [hi]

theorem runKernels_congr {ks ks' : List Kernel} (fits : ∀ k ∈ ks, k.Fits n)
    (fits' : ∀ k ∈ ks', k.Fits n)
    (same : ∀ f : ℕ → ℂ, ∀ i < 2 ^ n, Kernel.actAll n ks f i = Kernel.actAll n ks' f i)
    {a : Array ℂ} (ha : a.size = 2 ^ n) : runKernels n ks a = runKernels n ks' a := by
  rw [runKernels_eq fits ha, runKernels_eq fits' ha, tabulate_congr (same (amp a))]

theorem runKernels_eq_self {ks : List Kernel} (fits : ∀ k ∈ ks, k.Fits n)
    (same : ∀ f : ℕ → ℂ, ∀ i < 2 ^ n, Kernel.actAll n ks f i = f i)
    {a : Array ℂ} (ha : a.size = 2 ^ n) : runKernels n ks a = .ok a := by
  rw [runKernels_eq fits ha, tabulate_congr (same (amp a)), tabulate_amp ha]

/-! ## Phases on one qubit -/

theorem onQubit_diagonalMatrix_diagonalMatrix (φ ψ : ℂ) (p : ℕ) (f : ℕ → ℂ) :
    onQubit (diagonalMatrix φ) p (onQubit (diagonalMatrix ψ) p f) =
      onQubit (diagonalMatrix (φ * ψ)) p f := by
  funext i
  simp only [onQubit_diagonalMatrix]
  split <;> ring

theorem onQubit_diagonalMatrix_one (p : ℕ) (f : ℕ → ℂ) : onQubit (diagonalMatrix 1) p f = f := by
  funext i
  simp [onQubit_diagonalMatrix]

theorem onQubit_flipMatrix_flipMatrix {α β : ℂ} (unit : α * β = 1) (p : ℕ) (f : ℕ → ℂ) :
    onQubit (flipMatrix α β) p (onQubit (flipMatrix α β) p f) = f := by
  funext i
  rw [onQubit_flipMatrix, onQubit_flipMatrix, ← flipNat_eq_xor, ← flipNat_eq_xor, flipNat_flipNat,
    testBit_flipNat]
  cases i.testBit p
  · simp only [decide_true, Bool.false_xor, Bool.false_eq_true, if_false, if_true]
    linear_combination f i * unit
  · simp only [bne_self_eq_false, decide_true, Bool.false_eq_true, if_false, if_true]
    linear_combination f i * unit

theorem cphaseAct_cphaseAct (c t : ℕ) (w w' : ℂ) (f : ℕ → ℂ) :
    cphaseAct c t w (cphaseAct c t w' f) = cphaseAct c t (w * w') f := by
  funext i
  simp only [cphaseAct]
  split <;> ring

theorem cphaseAct_one (c t : ℕ) (f : ℕ → ℂ) : cphaseAct c t 1 f = f := by
  funext i
  simp [cphaseAct]

theorem rootOf_one : rootOf 1 = -1 := by
  simp [rootOf, Complex.exp_pi_mul_I]

theorem rootOf_two : rootOf 2 = Complex.I := by
  rw [rootOf, show (Real.pi : ℂ) * Complex.I / ((2 : ℝ) : ℂ) = Real.pi / 2 * Complex.I by
    push_cast
    ring]
  exact Complex.exp_pi_div_two_mul_I

theorem sqrt_two_mul_self : (Real.sqrt (2 : ℕ) : ℂ) * (Real.sqrt (2 : ℕ) : ℂ) = 2 := by
  rw [← Complex.ofReal_mul, Real.mul_self_sqrt (Nat.cast_nonneg 2)]
  norm_num

theorem rootOf_four : rootOf 4 = (1 + Complex.I) / (Real.sqrt (2 : ℕ) : ℂ) := by
  have angle : (Real.pi : ℂ) * Complex.I / ((4 : ℝ) : ℂ) = ((Real.pi / 4 : ℝ) : ℂ) * Complex.I := by
    push_cast
    ring
  have root : (Real.sqrt (2 : ℕ) : ℂ) ≠ 0 := by
    rw [Complex.ofReal_ne_zero]
    positivity
  rw [rootOf, angle, Complex.exp_mul_I, ← Complex.ofReal_cos, ← Complex.ofReal_sin,
    Real.cos_pi_div_four, Real.sin_pi_div_four, eq_div_iff root]
  push_cast
  linear_combination (1 + Complex.I) / 2 * sqrt_two_mul_self

theorem rootOf_neg_mul_rootOf (k : ℝ) : rootOf (-k) * rootOf k = 1 := by
  rw [rootOf, rootOf, ← Complex.exp_add, Complex.ofReal_neg, div_neg, neg_add_cancel,
    Complex.exp_zero]

theorem tPhase_mul_self :
    (1 + Complex.I) / (Real.sqrt (2 : ℕ) : ℂ) * ((1 + Complex.I) / (Real.sqrt (2 : ℕ) : ℂ)) =
      Complex.I := by
  rw [div_mul_div_comm, sqrt_two_mul_self]
  linear_combination Complex.I_sq / 2

theorem tdgPhase_mul_tPhase :
    (1 - Complex.I) / (Real.sqrt (2 : ℕ) : ℂ) * ((1 + Complex.I) / (Real.sqrt (2 : ℕ) : ℂ)) = 1 := by
  rw [div_mul_div_comm, sqrt_two_mul_self]
  linear_combination -Complex.I_sq / 2

/-! ## Kernels that undo themselves -/

theorem OneQubit.onQubit_matrix_matrix {g : OneQubit}
    (inv : g = .id ∨ g = .h ∨ g = .x ∨ g = .y ∨ g = .z) (p : ℕ) (f : ℕ → ℂ) :
    onQubit g.matrix p (onQubit g.matrix p f) = f := by
  rcases inv with rfl | rfl | rfl | rfl | rfl
  · rw [OneQubit.matrix, onQubit_diagonalMatrix_diagonalMatrix, mul_one, onQubit_diagonalMatrix_one]
  · exact onQubit_hadamardMatrix_hadamardMatrix p f
  · exact onQubit_flipMatrix_flipMatrix (mul_one 1) p f
  · exact onQubit_flipMatrix_flipMatrix (by rw [mul_neg, Complex.I_mul_I, neg_neg]) p f
  · rw [OneQubit.matrix, onQubit_diagonalMatrix_diagonalMatrix, neg_mul_neg, mul_one,
      onQubit_diagonalMatrix_one]

namespace Kernel

theorem act_act_of_selfInverse {k : Kernel} (inv : k.SelfInverse) (fits : k.Fits n)
    (f : ℕ → ℂ) : ∀ i < 2 ^ n, k.act n (k.act n f) i = f i := by
  intro i hi
  cases k with
  | gate g q => exact congrFun (OneQubit.onQubit_matrix_matrix inv q f) i
  | cnot c t => exact congrArg f (cnotIndex_cnotIndex fits.2 i)
  | sign index =>
    simp only [act]
    split <;> simp
  | reverse => exact congrArg f (reverseBits_reverseBits hi)
  | root | cphase => cases inv

/-! ## Diagonal kernels -/

theorem exists_factor_of_diagonal {k : Kernel} (diag : k.Diagonal) :
    ∃ d : ℕ → ℂ, ∀ f i, k.act n f i = d i * f i := by
  cases k with
  | gate g q =>
    obtain ⟨φ, phase⟩ : ∃ φ, g.matrix = diagonalMatrix φ := by
      rcases diag with rfl | rfl | rfl | rfl | rfl | rfl <;> exact ⟨_, rfl⟩
    exact ⟨_, fun f i => by rw [act, phase, onQubit_diagonalMatrix]⟩
  | root q k => exact ⟨_, onQubit_diagonalMatrix _ q⟩
  | cphase c t k => exact ⟨_, fun f i => rfl⟩
  | sign index =>
    refine ⟨fun i => if i = signPosition n index then -1 else 1, fun f i => ?_⟩
    simp only [act]
    split <;> simp
  | cnot | reverse => cases diag

theorem act_comm_of_diagonal {k₁ k₂ : Kernel} (diag₁ : k₁.Diagonal) (diag₂ : k₂.Diagonal)
    (f : ℕ → ℂ) : k₁.act n (k₂.act n f) = k₂.act n (k₁.act n f) := by
  obtain ⟨d₁, factor₁⟩ := exists_factor_of_diagonal (n := n) diag₁
  obtain ⟨d₂, factor₂⟩ := exists_factor_of_diagonal (n := n) diag₂
  funext i
  simp only [factor₁, factor₂]
  ring

end Kernel

/-! ## Kernels on disjoint qubits -/

theorem onQubit_cnotAct_comm {q c t : ℕ} (hc : q ≠ c) (ht : q ≠ t) (u : Bool → Bool → ℂ)
    (f : ℕ → ℂ) : onQubit u q (cnotAct c t f) = cnotAct c t (onQubit u q f) := by
  have bit (j : ℕ) : (cnotIndex c t j).testBit q = j.testBit q := by
    simp [testBit_cnotIndex, ht]
  have cleared (j : ℕ) : cnotIndex c t (clearNat j q) = clearNat (cnotIndex c t j) q := by
    apply Nat.eq_of_testBit_eq
    intro m
    by_cases hm : m = q
    · simp [testBit_cnotIndex, hm, ht]
    · simp [testBit_cnotIndex, hm, Ne.symm hc]
  have set (j : ℕ) : cnotIndex c t (setNat j q) = setNat (cnotIndex c t j) q := by
    apply Nat.eq_of_testBit_eq
    intro m
    by_cases hm : m = q
    · simp [testBit_cnotIndex, hm, ht]
    · simp [testBit_cnotIndex, hm, Ne.symm hc]
  funext i
  simp only [onQubit, cnotAct, bit, cleared, set]

theorem onQubit_cphaseAct_comm {q c t : ℕ} (hc : q ≠ c) (ht : q ≠ t) (u : Bool → Bool → ℂ)
    (w : ℂ) (f : ℕ → ℂ) : onQubit u q (cphaseAct c t w f) = cphaseAct c t w (onQubit u q f) := by
  funext i
  simp only [onQubit, cphaseAct, testBit_clearNat, testBit_setNat, ne_eq, Ne.symm hc, Ne.symm ht,
    not_false_eq_true, decide_true, decide_false, Bool.and_true, Bool.or_false]
  ring

theorem cnotAct_cphaseAct_comm {c t c' t' : ℕ} (hc' : c' ≠ t) (ht' : t' ≠ t) (w : ℂ)
    (f : ℕ → ℂ) : cnotAct c t (cphaseAct c' t' w f) = cphaseAct c' t' w (cnotAct c t f) := by
  funext i
  simp [cnotAct, cphaseAct, testBit_cnotIndex, hc', ht']

theorem cphaseAct_comm (c t c' t' : ℕ) (w w' : ℂ) (f : ℕ → ℂ) :
    cphaseAct c t w (cphaseAct c' t' w' f) = cphaseAct c' t' w' (cphaseAct c t w f) := by
  funext i
  simp only [cphaseAct]
  ring

namespace Kernel

theorem local_cases {k : Kernel} (loc : k.Local) :
    (∃ u q, k.qubits = {q} ∧ k.act n = onQubit u q) ∨
      (∃ c t, k.qubits = {c, t} ∧ k.act n = cnotAct c t) ∨
      ∃ c t w, k.qubits = {c, t} ∧ k.act n = cphaseAct c t w := by
  cases k with
  | gate g q => exact .inl ⟨g.matrix, q, rfl, rfl⟩
  | root q k => exact .inl ⟨_, q, rfl, rfl⟩
  | cnot c t => exact .inr (.inl ⟨c, t, rfl, rfl⟩)
  | cphase c t k => exact .inr (.inr ⟨c, t, _, rfl, rfl⟩)
  | sign | reverse => cases loc

theorem act_comm_of_disjoint {k₁ k₂ : Kernel} (loc₁ : k₁.Local) (loc₂ : k₂.Local)
    (apart : Disjoint k₁.qubits k₂.qubits) (f : ℕ → ℂ) :
    k₁.act n (k₂.act n f) = k₂.act n (k₁.act n f) := by
  rcases local_cases (n := n) loc₁ with ⟨u, q, qs, act₁⟩ | ⟨c, t, qs, act₁⟩ | ⟨c, t, w, qs, act₁⟩ <;>
    rcases local_cases (n := n) loc₂ with
      ⟨u', q', qs', act₂⟩ | ⟨c', t', qs', act₂⟩ | ⟨c', t', w', qs', act₂⟩ <;>
    simp only [qs, qs', disjoint_insert_left, disjoint_singleton_left, mem_insert, mem_singleton,
      not_or] at apart <;>
    rw [act₁, act₂]
  · exact onQubit_comm apart u u' f
  · exact onQubit_cnotAct_comm apart.1 apart.2 u f
  · exact onQubit_cphaseAct_comm apart.1 apart.2 u w' f
  · exact (onQubit_cnotAct_comm (Ne.symm apart.1) (Ne.symm apart.2) u' f).symm
  · exact cnotAct_comm apart.1.2 (Ne.symm apart.2.1) f
  · exact cnotAct_cphaseAct_comm (Ne.symm apart.2.1) (Ne.symm apart.2.2) w' f
  · exact (onQubit_cphaseAct_comm (Ne.symm apart.1) (Ne.symm apart.2) u' w f).symm
  · exact (cnotAct_cphaseAct_comm apart.1.2 apart.2.2 w f).symm
  · exact cphaseAct_comm c t c' t' w w' f

end Kernel

/-! ## The gate algebra -/

section Identities

variable {a : Array ℂ} (ha : a.size = 2 ^ n)
include ha

theorem runKernels_returns {ks : List Kernel} (fits : ∀ k ∈ ks, k.Fits n) :
    ∃ b, runKernels n ks a = .ok b ∧ b.size = 2 ^ n :=
  ⟨_, runKernels_eq fits ha, size_tabulate _ _⟩

theorem runKernels_self_inverse {k : Kernel} (inv : k.SelfInverse) (fits : k.Fits n) :
    runKernels n [k, k] a = .ok a :=
  runKernels_eq_self (by simp [fits]) (Kernel.act_act_of_selfInverse inv fits) ha

theorem runKernels_phase_gates {q : ℕ} (hq : q < n) :
    runKernels n [.gate .s q, .gate .sdg q] a = .ok a ∧
      runKernels n [.gate .t q, .gate .tdg q] a = .ok a ∧
      runKernels n [.gate .t q, .gate .t q] a = runKernels n [.gate .s q] a ∧
      runKernels n [.gate .s q, .gate .s q] a = runKernels n [.gate .z q] a ∧
      runKernels n [.root q 1] a = runKernels n [.gate .z q] a ∧
      runKernels n [.root q 2] a = runKernels n [.gate .s q] a ∧
      runKernels n [.root q 4] a = runKernels n [.gate .t q] a ∧
      ∀ k : ℝ, k ≠ 0 → runKernels n [.root q k, .root q (-k)] a = .ok a := by
  -- each run is one phase on qubit `q`, the product of the phases of its kernels
  refine ⟨runKernels_eq_self (by simp [Kernel.Fits, hq]) (fun f i _ => ?_) ha,
    runKernels_eq_self (by simp [Kernel.Fits, hq]) (fun f i _ => ?_) ha,
    runKernels_congr (by simp [Kernel.Fits, hq]) (by simp [Kernel.Fits, hq]) (fun f i _ => ?_) ha,
    runKernels_congr (by simp [Kernel.Fits, hq]) (by simp [Kernel.Fits, hq]) (fun f i _ => ?_) ha,
    runKernels_congr (by simp [Kernel.Fits, hq]) (by simp [Kernel.Fits, hq]) (fun f i _ => ?_) ha,
    runKernels_congr (by simp [Kernel.Fits, hq]) (by simp [Kernel.Fits, hq]) (fun f i _ => ?_) ha,
    runKernels_congr (by simp [Kernel.Fits, hq]) (by simp [Kernel.Fits, hq]) (fun f i _ => ?_) ha,
    fun k hk => runKernels_eq_self (by simp [Kernel.Fits, hq, hk]) (fun f i _ => ?_) ha⟩ <;>
    simp only [Kernel.actAll_cons, Kernel.actAll_nil, Kernel.act, OneQubit.matrix,
      onQubit_diagonalMatrix_diagonalMatrix]
  · rw [neg_mul, Complex.I_mul_I, neg_neg, onQubit_diagonalMatrix_one]
  · rw [tdgPhase_mul_tPhase, onQubit_diagonalMatrix_one]
  · rw [tPhase_mul_self]
  · rw [Complex.I_mul_I]
  · rw [rootOf_one]
  · rw [rootOf_two]
  · rw [rootOf_four]
  · rw [rootOf_neg_mul_rootOf, onQubit_diagonalMatrix_one]

theorem runKernels_cphase_neg (c t : ℕ) {k : ℝ} (hk : k ≠ 0) :
    runKernels n [.cphase c t k, .cphase c t (-k)] a = .ok a := by
  refine runKernels_eq_self (by simp [Kernel.Fits, hk]) (fun f i _ => ?_) ha
  simp only [Kernel.actAll_cons, Kernel.actAll_nil, Kernel.act, cphaseAct_cphaseAct,
    rootOf_neg_mul_rootOf, cphaseAct_one]

theorem runKernels_comm_of_disjoint {k₁ k₂ : Kernel} (loc₁ : k₁.Local) (loc₂ : k₂.Local)
    (apart : Disjoint k₁.qubits k₂.qubits) (fits₁ : k₁.Fits n) (fits₂ : k₂.Fits n) :
    runKernels n [k₁, k₂] a = runKernels n [k₂, k₁] a := by
  refine runKernels_congr (by simp [fits₁, fits₂]) (by simp [fits₁, fits₂]) (fun f i _ => ?_) ha
  exact congrFun (Kernel.act_comm_of_disjoint loc₂ loc₁ apart.symm f) i

theorem runKernels_comm_of_diagonal {k₁ k₂ : Kernel} (diag₁ : k₁.Diagonal) (diag₂ : k₂.Diagonal)
    (fits₁ : k₁.Fits n) (fits₂ : k₂.Fits n) :
    runKernels n [k₁, k₂] a = runKernels n [k₂, k₁] a := by
  refine runKernels_congr (by simp [fits₁, fits₂]) (by simp [fits₁, fits₂]) (fun f i _ => ?_) ha
  exact congrFun (Kernel.act_comm_of_diagonal diag₂ diag₁ f) i

end Identities

/-- The gate algebra of the kernels over exact arithmetic, on every register of `2 ^ n`
amplitudes. Every run of fitting kernels returns a vector. The identity, `H`, `X`, `Y`, `Z`, the
controlled NOT, the sign flip and the reversal undo themselves. On one qubit, `S` and `S†`, `T`
and `T†`, and the phases `e^(iπ/k)` and `e^(-iπ/k)` cancel, `T·T = S`, `S·S = Z`, and the phase
`e^(iπ/k)` is `Z`, `S` and `T` for `k = 1, 2, 4`; the controlled phases `e^(iπ/k)` and
`e^(-iπ/k)` cancel. Two kernels that act on disjoint sets of qubits commute, and so do any two
diagonal kernels, whatever their qubits. -/
theorem kernels_gate_algebra {a : Array ℂ} (ha : a.size = 2 ^ n) :
    (∀ ks : List Kernel, (∀ k ∈ ks, k.Fits n) → ∃ b, runKernels n ks a = .ok b ∧ b.size = 2 ^ n) ∧
    (∀ k : Kernel, k.SelfInverse → k.Fits n → runKernels n [k, k] a = .ok a) ∧
    (∀ q < n, runKernels n [.gate .s q, .gate .sdg q] a = .ok a ∧
      runKernels n [.gate .t q, .gate .tdg q] a = .ok a ∧
      runKernels n [.gate .t q, .gate .t q] a = runKernels n [.gate .s q] a ∧
      runKernels n [.gate .s q, .gate .s q] a = runKernels n [.gate .z q] a ∧
      runKernels n [.root q 1] a = runKernels n [.gate .z q] a ∧
      runKernels n [.root q 2] a = runKernels n [.gate .s q] a ∧
      runKernels n [.root q 4] a = runKernels n [.gate .t q] a ∧
      ∀ k : ℝ, k ≠ 0 → runKernels n [.root q k, .root q (-k)] a = .ok a) ∧
    (∀ (c t : ℕ) (k : ℝ), k ≠ 0 → runKernels n [.cphase c t k, .cphase c t (-k)] a = .ok a) ∧
    (∀ k₁ k₂ : Kernel, k₁.Local → k₂.Local → Disjoint k₁.qubits k₂.qubits → k₁.Fits n →
      k₂.Fits n → runKernels n [k₁, k₂] a = runKernels n [k₂, k₁] a) ∧
    (∀ k₁ k₂ : Kernel, k₁.Diagonal → k₂.Diagonal → k₁.Fits n → k₂.Fits n →
      runKernels n [k₁, k₂] a = runKernels n [k₂, k₁] a) :=
  ⟨fun _ => runKernels_returns ha, fun _ => runKernels_self_inverse ha,
    fun _ => runKernels_phase_gates ha, fun c t _ => runKernels_cphase_neg ha c t,
    fun _ _ => runKernels_comm_of_disjoint ha, fun _ _ => runKernels_comm_of_diagonal ha⟩

theorem kernels_gate_algebra_one_qubit :
    (#[1, 0] : Array ℂ).size = 2 ^ 1 ∧
    (∀ ks : List Kernel, (∀ k ∈ ks, k.Fits 1) →
      ∃ b, runKernels 1 ks #[1, 0] = .ok b ∧ b.size = 2 ^ 1) ∧
    (∀ k : Kernel, k.SelfInverse → k.Fits 1 → runKernels 1 [k, k] #[1, 0] = .ok #[1, 0]) ∧
    (∀ q < 1, runKernels 1 [.gate .s q, .gate .sdg q] #[1, 0] = .ok #[1, 0] ∧
      runKernels 1 [.gate .t q, .gate .tdg q] #[1, 0] = .ok #[1, 0] ∧
      runKernels 1 [.gate .t q, .gate .t q] #[1, 0] = runKernels 1 [.gate .s q] #[1, 0] ∧
      runKernels 1 [.gate .s q, .gate .s q] #[1, 0] = runKernels 1 [.gate .z q] #[1, 0] ∧
      runKernels 1 [.root q 1] #[1, 0] = runKernels 1 [.gate .z q] #[1, 0] ∧
      runKernels 1 [.root q 2] #[1, 0] = runKernels 1 [.gate .s q] #[1, 0] ∧
      runKernels 1 [.root q 4] #[1, 0] = runKernels 1 [.gate .t q] #[1, 0] ∧
      ∀ k : ℝ, k ≠ 0 → runKernels 1 [.root q k, .root q (-k)] #[1, 0] = .ok #[1, 0]) ∧
    (∀ (c t : ℕ) (k : ℝ), k ≠ 0 →
      runKernels 1 [.cphase c t k, .cphase c t (-k)] #[1, 0] = .ok #[1, 0]) ∧
    (∀ k₁ k₂ : Kernel, k₁.Local → k₂.Local → Disjoint k₁.qubits k₂.qubits → k₁.Fits 1 →
      k₂.Fits 1 → runKernels 1 [k₁, k₂] #[1, 0] = runKernels 1 [k₂, k₁] #[1, 0]) ∧
    (∀ k₁ k₂ : Kernel, k₁.Diagonal → k₂.Diagonal → k₁.Fits 1 → k₂.Fits 1 →
      runKernels 1 [k₁, k₂] #[1, 0] = runKernels 1 [k₂, k₁] #[1, 0]) :=
  ⟨rfl, kernels_gate_algebra rfl⟩

end Qubits.Gate
