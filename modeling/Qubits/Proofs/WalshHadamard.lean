import Qubits.Proofs.FourierCircuit

/-!
# The Hadamard gate on every qubit

`hadamardAll` applies the Hadamard gate to the qubits `0, 1, …, n - 1` in turn. Hadamard gates on
different qubits commute, so the qubits may be taken in any order (`onQubits_perm`),
and together the gates form the Walsh–Hadamard transform: the amplitude at `k` becomes
`2^(-n/2) ∑ⱼ (-1)^popcount(j AND k) a[j]` (`hadamardAll_eq_walsh`).

The transform is built one qubit at a time, as the transform of the `m` lowest qubits inside each
block of `2^m` indices (`stagedWalsh`); the Hadamard gate on qubit `m` doubles it
(`onQubit_stagedWalsh`), as a stage of the Fourier circuit doubles the Fourier transform.
-/

namespace Qubits.Gate

open Finset StateVector Bits

def popCount (m : ℕ) : ℕ := if m = 0 then 0 else m % 2 + popCount (m / 2)
termination_by m
decreasing_by omega

@[simp] theorem popCount_zero : popCount 0 = 0 := by
  rw [popCount, if_pos rfl]

theorem popCount_eq (m : ℕ) : popCount m = m % 2 + popCount (m / 2) := by
  rcases Nat.eq_zero_or_pos m with rfl | pos
  · simp
  · rw [popCount, if_neg pos.ne']

theorem popCount_eq_sum {n m : ℕ} (hm : m < 2 ^ n) :
    popCount m = ∑ q ∈ range n, (m.testBit q).toNat := by
  induction n generalizing m with
  | zero =>
    obtain rfl : m = 0 := by simpa using hm
    simp
  | succ n ih =>
    have half : m / 2 < 2 ^ n := by
      rw [pow_succ] at hm
      omega
    rw [popCount_eq, ih half, sum_range_succ', add_comm]
    simp only [Nat.testBit_div_two, Nat.testBit_zero]
    rcases Nat.mod_two_eq_zero_or_one m with parity | parity <;> simp [parity]

example : popCount 11 = 3 := by decide +kernel

theorem popCount_and {n j : ℕ} (hj : j < 2 ^ n) (k : ℕ) :
    popCount (j &&& k) = ∑ q ∈ range n, (j.testBit q && k.testBit q).toNat := by
  have below : j &&& k < 2 ^ n := Nat.land_comm k j ▸ Nat.and_lt_two_pow k hj
  simp only [popCount_eq_sum below, Nat.testBit_and]

section Blocks
variable {m j r : ℕ}

theorem popCount_and_mul_two_pow_add (hj : j < 2 ^ m) (P : ℕ) (hr : r < 2 ^ m) :
    popCount (j &&& (P * 2 ^ m + r)) = popCount (j &&& r) := by
  rw [popCount_and hj, popCount_and hj]
  refine sum_congr rfl fun q hq => ?_
  rw [mul_comm, Nat.testBit_two_pow_mul_add P hr, if_pos (mem_range.mp hq)]

theorem popCount_two_pow_add_and (hj : j < 2 ^ m) (b : Bool) (hr : r < 2 ^ m) :
    popCount ((2 ^ m + j) &&& (b.toNat * 2 ^ m + r)) = popCount (j &&& r) + b.toNat := by
  have top : 2 ^ m + j < 2 ^ (m + 1) := by
    rw [pow_succ]
    omega
  have high : (b.toNat * 2 ^ m + r).testBit m = b := by
    rw [testBit_mul_two_pow_add _ hr]
    cases b <;> decide
  rw [popCount_and top, popCount_and hj, sum_range_succ, Nat.testBit_two_pow_add_eq,
    Nat.testBit_lt_two_pow hj, high]
  -- bit `m` is shared exactly when `b` is set; below it the sums agree term by term
  congr 1
  refine sum_congr rfl fun q hq => ?_
  have low := mem_range.mp hq
  rw [Nat.testBit_two_pow_add_gt low, mul_comm, Nat.testBit_two_pow_mul_add _ hr, if_pos low]

end Blocks

noncomputable def stagedWalsh (m : ℕ) (f : ℕ → ℂ) (i : ℕ) : ℂ :=
  (Real.sqrt ((2 ^ m : ℕ) : ℝ) : ℂ)⁻¹ *
    ∑ j ∈ range (2 ^ m), (-1) ^ popCount (j &&& i % 2 ^ m) * f (i / 2 ^ m * 2 ^ m + j)

theorem stagedWalsh_zero (f : ℕ → ℂ) : stagedWalsh 0 f = f := by
  funext i
  simp [stagedWalsh]

theorem stagedWalsh_at (m : ℕ) (f : ℕ → ℂ) (P : ℕ) {r : ℕ} (hr : r < 2 ^ m) :
    stagedWalsh m f (P * 2 ^ m + r) = (Real.sqrt ((2 ^ m : ℕ) : ℝ) : ℂ)⁻¹ *
      ∑ j ∈ range (2 ^ m), (-1) ^ popCount (j &&& r) * f (P * 2 ^ m + j) := by
  simp only [stagedWalsh, mul_two_pow_add_div P hr, mul_two_pow_add_mod P hr]

theorem stagedWalsh_succ_at (f : ℕ → ℂ) (q : ℕ) (b : Bool) {m r : ℕ} (hr : r < 2 ^ m) :
    stagedWalsh (m + 1) f (q * 2 ^ (m + 1) + (b.toNat * 2 ^ m + r)) =
      (Real.sqrt ((2 ^ (m + 1) : ℕ) : ℝ) : ℂ)⁻¹ * ∑ j ∈ range (2 ^ m),
        (-1) ^ popCount (j &&& r) *
          (f (2 * q * 2 ^ m + j) + (-1) ^ b.toNat * f ((2 * q + 1) * 2 ^ m + j)) := by
  have top : b.toNat * 2 ^ m + r < 2 ^ (m + 1) := by
    cases b <;> simp [pow_succ] <;> omega
  have halves : range (2 ^ (m + 1)) = range (2 ^ m + 2 ^ m) := by rw [pow_succ, mul_two]
  rw [stagedWalsh_at (m + 1) f q top, halves, sum_range_add, ← sum_add_distrib]
  congr 1
  refine sum_congr rfl fun j hj => ?_
  have low := mem_range.mp hj
  have lower : q * 2 ^ (m + 1) + j = 2 * q * 2 ^ m + j := by ring
  have upper : q * 2 ^ (m + 1) + (2 ^ m + j) = (2 * q + 1) * 2 ^ m + j := by ring
  rw [popCount_and_mul_two_pow_add low _ hr, popCount_two_pow_add_and low b hr, lower, upper,
    pow_add]
  ring

theorem onQubit_stagedWalsh (m : ℕ) (f : ℕ → ℂ) :
    onQubit hadamardMatrix m (stagedWalsh m f) = stagedWalsh (m + 1) f := by
  funext y
  obtain ⟨q, b, r, hr, rfl⟩ := exists_eq_mul_two_pow_add y m
  have bit : ((2 * q + b.toNat) * 2 ^ m + r).testBit m = b := by
    cases b <;> simp [testBit_mul_two_pow_add _ hr]
  have whole : (2 * q + b.toNat) * 2 ^ m + r = q * 2 ^ (m + 1) + (b.toNat * 2 ^ m + r) := by ring
  rw [onQubit, bit, clearNat_mul_two_pow_add q b hr, setNat_mul_two_pow_add q b hr,
    stagedWalsh_at m f _ hr, stagedWalsh_at m f _ hr, whole, stagedWalsh_succ_at f q b hr,
    sqrt_two_pow_succ, mul_sum, mul_sum, mul_sum, mul_sum, mul_sum, ← sum_add_distrib]
  refine sum_congr rfl fun j _ => ?_
  cases b <;> simp [hadamardMatrix] <;> ring

@[simp] theorem onQubits_nil (u : Bool → Bool → ℂ) (f : ℕ → ℂ) : onQubits u [] f = f := rfl

@[simp] theorem onQubits_append_singleton (u : Bool → Bool → ℂ) (qs : List ℕ) (p : ℕ)
    (f : ℕ → ℂ) : onQubits u (qs ++ [p]) f = onQubit u p (onQubits u qs f) := by
  simp [onQubits]

theorem onQubits_perm (u : Bool → Bool → ℂ) {qs qs' : List ℕ} (perm : qs.Perm qs')
    (f : ℕ → ℂ) : onQubits u qs f = onQubits u qs' f := by
  unfold onQubits
  refine perm.foldl_eq' ?_ f
  intro p _ q _ g
  -- the same qubit twice is the same composite; two different qubits commute
  by_cases same : p = q
  · rw [same]
  · exact (onQubit_comm (Ne.symm same) _ _ g)

theorem onQubits_hadamardMatrix_range (f : ℕ → ℂ) :
    ∀ m, onQubits hadamardMatrix (List.range m) f = stagedWalsh m f
  | 0 => by simp [stagedWalsh_zero]
  | m + 1 => by
    rw [List.range_succ, onQubits_append_singleton, onQubits_hadamardMatrix_range f m,
      onQubit_stagedWalsh]

theorem stagedWalsh_whole (f : ℕ → ℂ) {n k : ℕ} (hk : k < 2 ^ n) :
    stagedWalsh n f k = (Real.sqrt ((2 ^ n : ℕ) : ℝ) : ℂ)⁻¹ *
      ∑ j ∈ range (2 ^ n), (-1) ^ popCount (j &&& k) * f j := by
  have at0 := stagedWalsh_at n f 0 hk
  simp only [zero_mul, zero_add] at at0
  exact at0

theorem foldlM_hadamard_eq {n : ℕ} {qs : List ℕ} (inside : ∀ q ∈ qs, q < n) {a : Array ℂ}
    (ha : a.size = 2 ^ n) :
    qs.foldlM (fun b (q : ℕ) => hadamard n q b) a =
      .ok (tabulate (2 ^ n) (onQubits hadamardMatrix qs (amp a))) :=
  OneQubit.foldlM_apply_eq .h qs inside ha

theorem hadamardAll_eq_onQubits {n : ℕ} (hn : 0 < n) {a : Array ℂ} (ha : a.size = 2 ^ n) :
    hadamardAll n a = .ok (tabulate (2 ^ n) (onQubits hadamardMatrix (List.range n) (amp a))) := by
  rw [hadamardAll, if_neg hn.ne']
  exact foldlM_hadamard_eq (fun q hq => List.mem_range.mp hq) ha

/-- The Hadamard gate on every qubit of a register of `n ≥ 1` qubits is the Hadamard gate on the
qubits `0, 1, …, n - 1` in turn, and equally on `n - 1, …, 1, 0` in turn; it returns a vector of
`2^n` amplitudes, the Walsh–Hadamard transform of the input: the amplitude at `k` becomes
`2^(-n/2) ∑ⱼ (-1)^popcount(j AND k) a[j]`. -/
theorem hadamardAll_eq_walsh {n : ℕ} (hn : 0 < n) {a : Array ℂ} (ha : a.size = 2 ^ n) :
    hadamardAll n a = (List.range n).foldlM (fun b (q : ℕ) => hadamard n q b) a ∧
    hadamardAll n a = (List.range n).reverse.foldlM (fun b (q : ℕ) => hadamard n q b) a ∧
    ∃ b, hadamardAll n a = .ok b ∧ b.size = 2 ^ n ∧ ∀ k < 2 ^ n,
      amp b k = (Real.sqrt ((2 ^ n : ℕ) : ℝ) : ℂ)⁻¹ *
        ∑ j ∈ range (2 ^ n), (-1) ^ popCount (j &&& k) * amp a j := by
  have upward : hadamardAll n a = .ok (tabulate (2 ^ n) (stagedWalsh n (amp a))) := by
    rw [hadamardAll_eq_onQubits hn ha, onQubits_hadamardMatrix_range]
  -- the reversed order applies the same gates, which commute
  have downward : (List.range n).reverse.foldlM (fun b (q : ℕ) => hadamard n q b) a =
      .ok (tabulate (2 ^ n) (stagedWalsh n (amp a))) := by
    rw [foldlM_hadamard_eq (fun q hq => List.mem_range.mp (List.mem_reverse.mp hq)) ha,
      onQubits_perm _ (List.reverse_perm _), onQubits_hadamardMatrix_range]
  refine ⟨by rw [hadamardAll, if_neg hn.ne'], upward.trans downward.symm, _, upward,
    size_tabulate _ _, fun k hk => ?_⟩
  rw [amp_tabulate, if_pos hk, stagedWalsh_whole _ hk]

theorem hadamardAll_eq_walsh_one_qubit :
    0 < 1 ∧ (#[1, 0] : Array ℂ).size = 2 ^ 1 ∧
    hadamardAll 1 (#[1, 0] : Array ℂ) =
      (List.range 1).foldlM (fun b (q : ℕ) => hadamard 1 q b) (#[1, 0] : Array ℂ) ∧
    hadamardAll 1 (#[1, 0] : Array ℂ) =
      (List.range 1).reverse.foldlM (fun b (q : ℕ) => hadamard 1 q b) (#[1, 0] : Array ℂ) ∧
    ∃ b, hadamardAll 1 (#[1, 0] : Array ℂ) = .ok b ∧ b.size = 2 ^ 1 ∧ ∀ k < 2 ^ 1,
      amp b k = (Real.sqrt ((2 ^ 1 : ℕ) : ℝ) : ℂ)⁻¹ *
        ∑ j ∈ range (2 ^ 1), (-1) ^ popCount (j &&& k) * amp #[1, 0] j :=
  ⟨one_pos, by simp, hadamardAll_eq_walsh one_pos (by simp)⟩

end Qubits.Gate
