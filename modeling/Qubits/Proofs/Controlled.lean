import Qubits.Proofs.SingleQubit
import Qubits.Gate

/-!
# Gates on two qubits

The controlled NOT with control `c` and target `t` on different qubits moves the amplitude of
each index whose control bit is set to the index with the target bit flipped. It permutes the
vector by an involution (`controlledNot_eq`), so it keeps the total probability, and two of them
commute when neither control is the other's target (`cnotAct_comm`). The
controlled phase multiplies the amplitudes where both bits are set by `e^(iπ/k)`
(`controlledPhase_eq`), a diagonal of modulus one whether or not the two qubits differ. Entry by
entry (`controlled_kernels_entrywise`), the controlled NOT reads entry `j` at the exclusive or of
`j` with `2^t` times the control bit, and the controlled phase multiplies entry `j` by
`e^(iπ·b_c·b_t/k)`.
-/

namespace Qubits.Gate

open Finset StateVector Bits

def cnotIndex (c t j : ℕ) : ℕ := if j.testBit c then flipNat j t else j

def cnotAct (c t : ℕ) (f : ℕ → ℂ) (i : ℕ) : ℂ := f (cnotIndex c t i)

theorem testBit_cnotIndex_control {c t : ℕ} (hct : c ≠ t) (j : ℕ) :
    (cnotIndex c t j).testBit c = j.testBit c := by
  unfold cnotIndex
  split <;> simp [hct]

theorem cnotIndex_cnotIndex {c t : ℕ} (hct : c ≠ t) (j : ℕ) :
    cnotIndex c t (cnotIndex c t j) = j := by
  unfold cnotIndex
  cases bit : j.testBit c <;> simp [bit, hct]

theorem cnotIndex_lt {n c t j : ℕ} (ht : t < n) (hj : j < 2 ^ n) : cnotIndex c t j < 2 ^ n := by
  unfold cnotIndex
  split
  · exact flipNat_lt hj ht
  · exact hj

theorem cnotIndex_eq_xor (c t j : ℕ) : cnotIndex c t j = j ^^^ (j.testBit c).toNat * 2 ^ t := by
  unfold cnotIndex
  cases j.testBit c <;> simp [flipNat_eq_xor]

theorem controlledNot_eq {n c t : ℕ} (ht : t < n) (hct : c ≠ t) {a : Array ℂ}
    (ha : a.size = 2 ^ n) :
    controlledNot n c t a = .ok (tabulate (2 ^ n) (cnotAct c t (amp a))) := by
  unfold controlledNot
  simp only [Nat.pow_eq]
  rw [sweep_involution (cnotIndex c t) (fun i hi => cnotIndex_lt ht hi)
    (fun i _ => cnotIndex_cnotIndex hct i) ha]
  · rfl
  intro b j hb hj _
  simp only [position_natCast, ok_bind]
  split
  · rename_i clear
    rw [accumulate_eq (hb ▸ hj), hb]
    simp [cnotIndex, by simpa using clear]
  · rename_i set
    have set : j.testBit c = true := by simpa using set
    split
    · rename_i flipped
      rw [accumulate_eq (hb ▸ clearNat_lt hj), hb]
      simp [cnotIndex, flipNat, set, flipped]
    · rename_i kept
      rw [accumulate_eq (hb ▸ setNat_lt hj ht), hb]
      simp [cnotIndex, flipNat, set, kept]

theorem sum_norm_cnotAct {n c t : ℕ} (ht : t < n) (hct : c ≠ t) (f : ℕ → ℂ) :
    ∑ i ∈ range (2 ^ n), ‖cnotAct c t f i‖ ^ 2 = ∑ i ∈ range (2 ^ n), ‖f i‖ ^ 2 :=
  sum_nbij' (cnotIndex c t) (cnotIndex c t)
    (fun i hi => by simpa using cnotIndex_lt ht (mem_range.mp hi))
    (fun i hi => by simpa using cnotIndex_lt ht (mem_range.mp hi))
    (fun i _ => cnotIndex_cnotIndex hct i) (fun i _ => cnotIndex_cnotIndex hct i) (fun _ _ => rfl)

theorem testBit_cnotIndex (c t j m : ℕ) :
    (cnotIndex c t j).testBit m = (j.testBit m ^^ (decide (m = t) && j.testBit c)) := by
  unfold cnotIndex
  cases bit : j.testBit c <;> simp

theorem cnotAct_comm {c t c' t' : ℕ} (hc : c ≠ t') (hc' : c' ≠ t) (f : ℕ → ℂ) :
    cnotAct c t (cnotAct c' t' f) = cnotAct c' t' (cnotAct c t f) := by
  funext i
  simp only [cnotAct]
  congr 1
  apply Nat.eq_of_testBit_eq
  intro m
  simp only [testBit_cnotIndex, hc, hc', decide_false, Bool.false_and, Bool.xor_false]
  exact Bool.xor_right_comm _ _ _

def cphaseAct (c t : ℕ) (w : ℂ) (f : ℕ → ℂ) (i : ℕ) : ℂ :=
  (if i.testBit c && i.testBit t then w else 1) * f i

theorem controlledPhase_eq {n c t : ℕ} {k : ℝ} (hk : k ≠ 0) {a : Array ℂ}
    (ha : a.size = 2 ^ n) :
    controlledPhase n c t k a =
      .ok (tabulate (2 ^ n) (cphaseAct c t (Complex.exp (Real.pi * Complex.I / k)) (amp a))) := by
  unfold controlledPhase
  rw [rootPhase_eq hk, ok_bind]
  simp only [Nat.pow_eq]
  rw [sweep_diagonal (fun i => if i.testBit c && i.testBit t then
    Complex.exp (Real.pi * Complex.I / k) else 1) ha]
  · rfl
  intro b j hb hj _
  simp only [position_natCast, ok_bind]
  split
  · rw [accumulate_eq (hb ▸ hj), hb]
  · rw [accumulate_eq (hb ▸ hj), hb, one_mul]

theorem cphaseFactor_eq_exp (c t : ℕ) (k : ℝ) (j : ℕ) :
    (if j.testBit c && j.testBit t then Complex.exp (Real.pi * Complex.I / k) else 1) =
      Complex.exp (Real.pi * Complex.I * (j.testBit c).toNat * (j.testBit t).toNat / k) := by
  cases j.testBit c <;> cases j.testBit t <;> simp

theorem sum_norm_cphaseAct {N c t : ℕ} {w : ℂ} (unit : ‖w‖ = 1) (f : ℕ → ℂ) :
    ∑ i ∈ range N, ‖cphaseAct c t w f i‖ ^ 2 = ∑ i ∈ range N, ‖f i‖ ^ 2 := by
  apply sum_congr rfl
  intro i _
  unfold cphaseAct
  split <;> simp [unit]

/-- Both controlled kernels, entry by entry. For a control and a target that are different qubits
of the register, the controlled NOT reads entry `j` at `j` with the target bit flipped when the
control bit is set, so its result holds the input's amplitudes, rearranged. For any two qubits of
the register, equal or not, the controlled phase multiplies entry `j` by `e^(iπ·b_c·b_t/k)`, where
`b_c` and `b_t` are the two bits of `j`. -/
theorem controlled_kernels_entrywise {n : ℕ} {a : Array ℂ} (ha : a.size = 2 ^ n) :
    (∀ c t : ℕ, c < n → t < n → c ≠ t → ∃ b, controlledNot n c t a = .ok b ∧
      (∀ j < 2 ^ n, amp b j = amp a (j ^^^ (j.testBit c).toNat * 2 ^ t)) ∧
      b.toList.Perm a.toList) ∧
    (∀ c t : ℕ, c < n → t < n → ∀ k : ℝ, k ≠ 0 → controlledPhase n c t k a =
      .ok (tabulate (2 ^ n) fun j =>
        Complex.exp (Real.pi * Complex.I * (j.testBit c).toNat * (j.testBit t).toNat / k) *
          amp a j)) := by
  constructor
  · intro c t _ ht hct
    refine ⟨_, controlledNot_eq ht hct ha, fun j hj => ?_, ?_⟩
    · simp [hj, cnotAct, cnotIndex_eq_xor]
    · -- the index map is an involution of the register, so the entries are only rearranged
      exact tabulate_involution_perm (fun j hj => cnotIndex_lt ht hj)
        (fun j _ => cnotIndex_cnotIndex hct j) ha
  · intro c t _ _ k hk
    rw [controlledPhase_eq hk ha]
    exact congrArg _ (tabulate_congr fun j _ => by rw [cphaseAct, cphaseFactor_eq_exp])

theorem controlled_kernels_entrywise_two_qubits :
    (#[0, 1, 0, 0] : Array ℂ).size = 2 ^ 2 ∧
    (∀ c t : ℕ, c < 2 → t < 2 → c ≠ t → ∃ b, controlledNot 2 c t (#[0, 1, 0, 0] : Array ℂ) = .ok b ∧
      (∀ j < 2 ^ 2, amp b j = amp #[0, 1, 0, 0] (j ^^^ (j.testBit c).toNat * 2 ^ t)) ∧
      b.toList.Perm (#[0, 1, 0, 0] : Array ℂ).toList) ∧
    (∀ c t : ℕ, c < 2 → t < 2 → ∀ k : ℝ, k ≠ 0 →
      controlledPhase 2 c t k (#[0, 1, 0, 0] : Array ℂ) = .ok (tabulate (2 ^ 2) fun j =>
        Complex.exp (Real.pi * Complex.I * (j.testBit c).toNat * (j.testBit t).toNat / k) *
          amp #[0, 1, 0, 0] j)) :=
  ⟨by simp, controlled_kernels_entrywise (by simp)⟩

end Qubits.Gate
