import Qubits.Proofs.FourierBlock
import Qubits.Proofs.Controlled
import Qubits.Proofs.Permutation

namespace Qubits.Gate

open Finset StateVector

variable {n : ℕ} {a b : Array ℂ}

def UnitVector (n : ℕ) (a : Array ℂ) : Prop := a.size = 2 ^ n ∧ normSq a = 1

theorem UnitVector.sum_norm (unit : UnitVector n a) :
    ∑ i ∈ range (2 ^ n), ‖amp a i‖ ^ 2 = 1 := by
  rw [← unit.1]
  exact unit.2

theorem unitVector_tabulate (unit : UnitVector n a) {f : ℕ → ℂ}
    (keeps : ∑ i ∈ range (2 ^ n), ‖f i‖ ^ 2 = ∑ i ∈ range (2 ^ n), ‖amp a i‖ ^ 2) :
    UnitVector n (tabulate (2 ^ n) f) :=
  ⟨size_tabulate _ _, by rw [normSq_tabulate, keeps, unit.sum_norm]⟩

theorem OneQubit.unitVector_apply (g : OneQubit) {p : ℕ} (hp : p < n) (unit : UnitVector n a)
    (h : g.apply n p a = .ok b) : UnitVector n b := by
  rw [g.apply_eq hp unit.1, Except.ok.injEq] at h
  subst h
  exact unitVector_tabulate unit (sum_norm_onQubit hp g.isUnitary_matrix _)

theorem OneQubit.unitVector_foldlM (g : OneQubit) (qs : List ℕ) (inside : ∀ q ∈ qs, q < n)
    (unit : UnitVector n a) (h : qs.foldlM (fun a (q : ℕ) => g.apply n q a) a = .ok b) :
    UnitVector n b := by
  induction qs generalizing a with
  | nil =>
    rw [List.foldlM_nil, pure_eq_ok, Except.ok.injEq] at h
    exact h ▸ unit
  | cons q qs ih =>
    rw [List.foldlM_cons, bind_eq_ok] at h
    obtain ⟨c, hc, rest⟩ := h
    exact ih (fun r hr => inside r (by simp [hr]))
      (g.unitVector_apply (inside q (by simp)) unit hc) rest

theorem unitVector_hadamardAll (unit : UnitVector n a) (h : hadamardAll n a = .ok b) :
    UnitVector n b := by
  unfold hadamardAll at h
  split at h
  · cases h
  · exact OneQubit.h.unitVector_foldlM _ (fun q hq => List.mem_range.mp hq) unit h

theorem unitVector_phaseRoot {p : ℕ} (hp : p < n) {k : ℝ} (unit : UnitVector n a)
    (h : phaseRoot n p k a = .ok b) : UnitVector n b := by
  by_cases hk : k = 0
  · subst hk
    simp [phaseRoot, rootPhase_zero] at h
  rw [phaseRoot_eq hp hk unit.1, Except.ok.injEq] at h
  subst h
  exact unitVector_tabulate unit
    (sum_norm_onQubit hp (isUnitary_diagonalMatrix_of_norm (norm_exp_pi_mul_I_div k)) _)

theorem unitVector_controlledNot {c t : ℕ} (ht : t < n) (hct : c ≠ t) (unit : UnitVector n a)
    (h : controlledNot n c t a = .ok b) : UnitVector n b := by
  rw [controlledNot_eq ht hct unit.1, Except.ok.injEq] at h
  subst h
  exact unitVector_tabulate unit (sum_norm_cnotAct ht hct _)

theorem unitVector_controlledPhase {c t : ℕ} {k : ℝ} (unit : UnitVector n a)
    (h : controlledPhase n c t k a = .ok b) : UnitVector n b := by
  by_cases hk : k = 0
  · subst hk
    simp [controlledPhase, rootPhase_zero] at h
  rw [controlledPhase_eq hk unit.1, Except.ok.injEq] at h
  subst h
  exact unitVector_tabulate unit (sum_norm_cphaseAct (norm_exp_pi_mul_I_div k) _)

theorem unitVector_negateAt {index : ℤ} (unit : UnitVector n a) (h : negateAt index a = .ok b) :
    UnitVector n b := by
  obtain ⟨size, norm⟩ := normSq_negateAt h
  exact ⟨size.trans unit.1, norm.trans unit.2⟩

theorem unitVector_reverseQubits (unit : UnitVector n a) (h : reverseQubits n a = .ok b) :
    UnitVector n b := by
  rw [reverseQubits_eq unit.1, Except.ok.injEq] at h
  subst h
  exact unitVector_tabulate unit (sum_norm_reverseBits n _)

theorem unitVector_fourierBlock {i f : ℤ} {dir : ℝ} (hdir : dir = 1 ∨ dir = -1)
    (unit : UnitVector n a) (h : fourierBlock n i f dir a = .ok b) : UnitVector n b := by
  -- past the kernel's own check, the block is `low … high - 1` with `low ≤ high ≤ n`
  by_cases refused : (n : ℤ) - f - 1 < 0 ∨ f - i + 1 < 0 ∨ i < 0
  · simp only [fourierBlock, refused, if_true] at h
    cases h
  have hi : i = (i.toNat : ℤ) := by omega
  have hf : f = ((f + 1).toNat : ℤ) - 1 := by omega
  rw [hi, hf, fourierBlock_eq dir (by omega) (by omega) unit.1, Except.ok.injEq] at h
  subst h
  exact unitVector_tabulate unit (sum_norm_blockFourier hdir (by omega) (by omega) _)

end Qubits.Gate
