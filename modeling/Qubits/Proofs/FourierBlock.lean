import Qubits.Proofs.SingleQubit
import Qubits.Gate

/-!
# The Fourier transform on a block of qubits

A basis index of an `n`-qubit register splits at two positions `low ≤ high` into the value `j3`
of the qubits above the block, the block value `k` and the value `j1` of the qubits below it
(`blockIndex`). The block transform sends the amplitude with block value `j` to every block value
`k`, weighted by entry `(j, k)` of the Fourier matrix of size `W = 2^(high - low)`, and leaves
the outer qubits as they are (`fourierBlock_eq`).

For the directions `1` and `-1` the rows of the Fourier matrix are orthonormal, since its entries
are powers of a primitive `W`-th root of unity (`sum_fourierEntry_mul_conj`); the block transform
therefore keeps the total probability (`sum_norm_blockFourier`). The matrix of the opposite
direction is the conjugate one, which makes it the inverse (`sum_fourierEntry_mul_neg`), so the
transforms of the two directions undo each other on every block (`fourierBlock_bind_neg`).
-/

namespace Qubits

open Finset StateVector ComplexConjugate

/-! ## Splitting an index around a block -/

theorem sum_range_mul {M : Type} [AddCommMonoid M] (m n : ℕ) (g : ℕ → M) :
    ∑ i ∈ range (m * n), g i = ∑ q ∈ range m, ∑ r ∈ range n, g (q * n + r) := by
  induction m with
  | zero => simp
  | succ m ih => rw [Nat.succ_mul, sum_range_add, ih, sum_range_succ]

theorem mul_add_lt {q r m M : ℕ} (hq : q < M) (hr : r < m) : q * m + r < M * m :=
  calc q * m + r < q * m + m := by omega
    _ = (q + 1) * m := by ring
    _ ≤ M * m := Nat.mul_le_mul_right m hq

namespace Gate

variable {n low high : ℕ}

def blockIndex (low high j3 k j1 : ℕ) : ℕ := j3 * 2 ^ high + k * 2 ^ low + j1

def blockValue (low high i : ℕ) : ℕ := i % 2 ^ high / 2 ^ low

def withBlock (low high i j : ℕ) : ℕ := blockIndex low high (i / 2 ^ high) j (i % 2 ^ low)

theorem two_pow_block (hlow : low ≤ high) : 2 ^ high = 2 ^ (high - low) * 2 ^ low := by
  rw [← pow_add, Nat.sub_add_cancel hlow]

section
variable {j3 k j1 : ℕ}

theorem block_lt (hlow : low ≤ high) (hk : k < 2 ^ (high - low)) (hj1 : j1 < 2 ^ low) :
    k * 2 ^ low + j1 < 2 ^ high := by
  rw [two_pow_block hlow]
  exact mul_add_lt hk hj1

theorem blockIndex_lt (hlow : low ≤ high) (hhigh : high ≤ n) (hj3 : j3 < 2 ^ (n - high))
    (hk : k < 2 ^ (high - low)) (hj1 : j1 < 2 ^ low) : blockIndex low high j3 k j1 < 2 ^ n := by
  rw [blockIndex, add_assoc, two_pow_block hhigh]
  exact mul_add_lt hj3 (block_lt hlow hk hj1)

theorem blockIndex_div (hlow : low ≤ high) (hk : k < 2 ^ (high - low)) (hj1 : j1 < 2 ^ low) :
    blockIndex low high j3 k j1 / 2 ^ high = j3 := by
  rw [blockIndex, add_assoc, mul_comm, Nat.mul_add_div (by positivity),
    Nat.div_eq_of_lt (block_lt hlow hk hj1), add_zero]

theorem blockIndex_mod_high (hlow : low ≤ high) (hk : k < 2 ^ (high - low)) (hj1 : j1 < 2 ^ low) :
    blockIndex low high j3 k j1 % 2 ^ high = k * 2 ^ low + j1 := by
  rw [blockIndex, add_assoc, mul_comm, Nat.mul_add_mod, Nat.mod_eq_of_lt (block_lt hlow hk hj1)]

theorem blockIndex_mod_low (hlow : low ≤ high) (hj1 : j1 < 2 ^ low) :
    blockIndex low high j3 k j1 % 2 ^ low = j1 := by
  have outer : j3 * 2 ^ high + k * 2 ^ low = 2 ^ low * (j3 * 2 ^ (high - low) + k) := by
    rw [two_pow_block hlow]
    ring
  rw [blockIndex, outer, Nat.mul_add_mod, Nat.mod_eq_of_lt hj1]

@[simp] theorem blockValue_blockIndex (hlow : low ≤ high) (hk : k < 2 ^ (high - low))
    (hj1 : j1 < 2 ^ low) : blockValue low high (blockIndex low high j3 k j1) = k := by
  rw [blockValue, blockIndex_mod_high hlow hk hj1, mul_comm, Nat.mul_add_div (by positivity),
    Nat.div_eq_of_lt hj1, add_zero]

@[simp] theorem withBlock_blockIndex (hlow : low ≤ high) (hk : k < 2 ^ (high - low))
    (hj1 : j1 < 2 ^ low) (j : ℕ) :
    withBlock low high (blockIndex low high j3 k j1) j = blockIndex low high j3 j j1 := by
  rw [withBlock, blockIndex_div hlow hk hj1, blockIndex_mod_low hlow hj1]

end

section
variable {i j : ℕ}

theorem blockValue_lt (hlow : low ≤ high) (i : ℕ) : blockValue low high i < 2 ^ (high - low) := by
  rw [blockValue, Nat.div_lt_iff_lt_mul (by positivity), ← two_pow_block hlow]
  exact Nat.mod_lt _ (by positivity)

theorem div_two_pow_lt (hhigh : high ≤ n) (hi : i < 2 ^ n) : i / 2 ^ high < 2 ^ (n - high) := by
  rw [Nat.div_lt_iff_lt_mul (by positivity), ← pow_add, Nat.sub_add_cancel hhigh]
  exact hi

theorem withBlock_lt (hlow : low ≤ high) (hhigh : high ≤ n) (hi : i < 2 ^ n)
    (hj : j < 2 ^ (high - low)) : withBlock low high i j < 2 ^ n :=
  blockIndex_lt hlow hhigh (div_two_pow_lt hhigh hi) hj (Nat.mod_lt _ (by positivity))

theorem withBlock_blockValue (hlow : low ≤ high) (i : ℕ) :
    withBlock low high i (blockValue low high i) = i := by
  have low_mod : i % 2 ^ high % 2 ^ low = i % 2 ^ low :=
    Nat.mod_mod_of_dvd i (Nat.pow_dvd_pow 2 hlow)
  calc withBlock low high i (blockValue low high i)
      = i / 2 ^ high * 2 ^ high + (i % 2 ^ high / 2 ^ low * 2 ^ low + i % 2 ^ high % 2 ^ low) := by
        rw [withBlock, blockIndex, blockValue, low_mod, add_assoc]
    _ = i := by rw [Nat.div_add_mod', Nat.div_add_mod']

theorem blockValue_withBlock (hlow : low ≤ high) (hj : j < 2 ^ (high - low)) (i : ℕ) :
    blockValue low high (withBlock low high i j) = j :=
  blockValue_blockIndex hlow hj (Nat.mod_lt _ (by positivity))

theorem withBlock_withBlock (hlow : low ≤ high) (hj : j < 2 ^ (high - low)) (i l : ℕ) :
    withBlock low high (withBlock low high i j) l = withBlock low high i l :=
  withBlock_blockIndex hlow hj (Nat.mod_lt _ (by positivity)) l

end

theorem sum_blocks {M : Type} [AddCommMonoid M] (hlow : low ≤ high) (hhigh : high ≤ n)
    (g : ℕ → M) :
    ∑ j3 ∈ range (2 ^ (n - high)), ∑ k ∈ range (2 ^ (high - low)), ∑ j1 ∈ range (2 ^ low),
      g (blockIndex low high j3 k j1) = ∑ i ∈ range (2 ^ n), g i := by
  have block : range (2 ^ high) = range (2 ^ (high - low) * 2 ^ low) := by
    rw [two_pow_block hlow]
  rw [two_pow_block hhigh, sum_range_mul]
  refine sum_congr rfl fun j3 _ => ?_
  rw [block, sum_range_mul]
  simp only [blockIndex, add_assoc]

/-! ## The kernel's loops -/

/-- The triples `(j3, j2, j1)` the kernel visits on the block `low … high - 1` of an `n`-qubit
register: the value above the block outermost, then the block value, then the value below it. -/
def blockTriples (n low high : ℕ) : List (ℕ × ℕ × ℕ) :=
  (List.range (2 ^ (n - high))).flatMap fun j3 =>
    (List.range (2 ^ (high - low))).flatMap fun j2 =>
      (List.range (2 ^ low)).map fun j1 => (j3, j2, j1)

@[simp] theorem mem_blockTriples {t : ℕ × ℕ × ℕ} :
    t ∈ blockTriples n low high ↔
      t.1 < 2 ^ (n - high) ∧ t.2.1 < 2 ^ (high - low) ∧ t.2.2 < 2 ^ low := by
  obtain ⟨j3, j2, j1⟩ := t
  simp [blockTriples]

section Visits

variable {R K : Type} [RealScalar R] [Amplitude R K]

/-- One visit of the kernel: the amplitude of `a` at the triple's index, unless its modulus is
zero, is added into `b` at every block value `k` with the same outer qubits, weighted by entry `k`
of the row of its own block value. -/
def fourierVisit (dir : R) (low high : ℕ) (a b : Array K) : ℕ × ℕ × ℕ → Except Fault (Array K)
  | (j3, j2, j1) => do
    let x ← read a (blockIndex low high j3 j2 j1)
    if RealScalar.lt (RealScalar.ofInt 0) (Amplitude.abs x) then
      let row : Array K := fourierRow dir (2 ^ (high - low)) j2
      (List.range row.size).foldlM (fun b k =>
        accumulate b (blockIndex low high j3 k j1) (row.getD k Amplitude.zero * x)) b
    else pure b

theorem fourierBlock_refused {i f : ℤ} (refused : (n : ℤ) - f - 1 < 0 ∨ f - i + 1 < 0 ∨ i < 0)
    (dir : R) (a : Array K) : fourierBlock n i f dir a = .error .fractionalCount := by
  unfold fourierBlock
  rw [if_pos refused]
  rfl

theorem fourierBlock_eq_foldlM {i f : ℤ} (block : ¬((n : ℤ) - f - 1 < 0 ∨ f - i + 1 < 0 ∨ i < 0))
    (dir : R) (a : Array K) :
    fourierBlock n i f dir a = (blockTriples n i.toNat (f + 1).toNat).foldlM
      (fourierVisit dir i.toNat (f + 1).toNat a) (zeros (2 ^ n)) := by
  unfold fourierBlock
  rw [if_neg block]
  rfl

end Visits

/-! ## The kernel -/

noncomputable def fourierEntry (dir : ℝ) (N j k : ℕ) : ℂ :=
  Complex.exp ((2 : ℕ) * Real.pi * Complex.I * dir * j * k / N) / Real.sqrt N

/-- The Fourier transform with direction `dir` on the qubits `low … high - 1`: the amplitude of
index `i` collects, for each block value `j`, entry `(j, k)` of the Fourier matrix times the
amplitude of `i` with block value `j`, where `k` is the block value of `i`. -/
noncomputable def blockFourier (dir : ℝ) (low high : ℕ) (f : ℕ → ℂ) (i : ℕ) : ℂ :=
  ∑ j ∈ range (2 ^ (high - low)),
    fourierEntry dir (2 ^ (high - low)) j (blockValue low high i) * f (withBlock low high i j)

theorem blockFourier_blockIndex (dir : ℝ) (hlow : low ≤ high) (f : ℕ → ℂ) {j3 k j1 : ℕ}
    (hk : k < 2 ^ (high - low)) (hj1 : j1 < 2 ^ low) :
    blockFourier dir low high f (blockIndex low high j3 k j1) =
      ∑ j ∈ range (2 ^ (high - low)),
        fourierEntry dir (2 ^ (high - low)) j k * f (blockIndex low high j3 j j1) := by
  simp [blockFourier, hlow, hk, hj1]

theorem blockFourier_congr (dir : ℝ) (hlow : low ≤ high) (hhigh : high ≤ n) {f g : ℕ → ℂ}
    (h : ∀ i < 2 ^ n, f i = g i) :
    ∀ i < 2 ^ n, blockFourier dir low high f i = blockFourier dir low high g i := by
  intro i hi
  refine sum_congr rfl fun j hj => ?_
  rw [h _ (withBlock_lt hlow hhigh hi (mem_range.mp hj))]

theorem fourierRow_getD (dir : ℝ) {N : ℕ} (hN : N ≠ 0) (j : ℕ) {k : ℕ} (hk : k < N) :
    (fourierRow dir N (j : ℤ) : Array ℂ).getD k 0 = fourierEntry dir N j k := by
  simp only [fourierRow, fourierPhase]
  simp [hN, hk, fourierEntry]
  ring_nf

theorem sum_map_flatMap {α β : Type} (l : List α) (f : α → List β) (g : β → ℂ) :
    ((l.flatMap f).map g).sum = (l.map fun x => ((f x).map g).sum).sum := by
  induction l with
  | nil => rfl
  | cons x l ih => simp [List.flatMap_cons, ih]

theorem sum_blocks_ite (hlow : low ≤ high) (hhigh : high ≤ n) {i : ℕ} (hi : i < 2 ^ n)
    (g : ℕ → ℂ) :
    ∑ j3 ∈ range (2 ^ (n - high)), ∑ k ∈ range (2 ^ (high - low)), ∑ j1 ∈ range (2 ^ low),
      (if i = blockIndex low high j3 k j1 then g (blockIndex low high j3 k j1) else 0) = g i := by
  rw [sum_blocks hlow hhigh (fun m => if i = m then g m else 0), sum_ite_eq]
  simp [hi]

noncomputable def visitColumn (dir : ℝ) (low high : ℕ) (a : Array ℂ) (e : ℕ × ℕ × ℕ) (i : ℕ) :
    ℂ :=
  ∑ k ∈ range (2 ^ (high - low)),
    if i = blockIndex low high e.1 k e.2.2 then
      fourierEntry dir (2 ^ (high - low)) e.2.1 k * amp a (blockIndex low high e.1 e.2.1 e.2.2)
    else 0

theorem fourierVisit_eq (dir : ℝ) (hlow : low ≤ high) (hhigh : high ≤ n) {a c : Array ℂ}
    (ha : a.size = 2 ^ n) (hc : c.size = 2 ^ n) {e : ℕ × ℕ × ℕ}
    (visited : e ∈ blockTriples n low high) :
    fourierVisit dir low high a c e =
      .ok (tabulate (2 ^ n) fun i => amp c i + visitColumn dir low high a e i) := by
  obtain ⟨j3, j2, j1⟩ := e
  obtain ⟨hj3, hj2, hj1⟩ := mem_blockTriples.mp visited
  have source := blockIndex_lt hlow hhigh hj3 hj2 hj1
  rw [← ha] at source
  simp only [fourierVisit, fourierRow_size]
  rw [read_eq source, ok_bind]
  simp only [Exact.lt_eq, Exact.ofInt_eq, Exact.abs_eq, Int.cast_zero, norm_pos_iff,
    decide_eq_true_eq, Exact.zero_eq]
  by_cases hzero : amp a (blockIndex low high j3 j2 j1) = 0
  · simp [hzero, visitColumn, tabulate_amp hc]
  · -- the row is added entry by entry, each at its own block value
    rw [if_pos hzero, foldlM_add (N := 2 ^ n) (fun k i => if i = blockIndex low high j3 k j1 then
        fourierEntry dir (2 ^ (high - low)) j2 k * amp a (blockIndex low high j3 j2 j1) else 0)
        _ _ _ hc]
    · simp only [sum_map_range, visitColumn]
    intro d k hd hk
    rw [List.mem_range] at hk
    rw [accumulate_eq (by rw [hd]; exact blockIndex_lt hlow hhigh hj3 hk hj1),
      fourierRow_getD dir (by positivity) j2 hk, hd]

theorem fourierBlock_eq (dir : ℝ) (hlow : low ≤ high) (hhigh : high ≤ n) {a : Array ℂ}
    (ha : a.size = 2 ^ n) :
    fourierBlock n low ((high : ℤ) - 1) dir a =
      .ok (tabulate (2 ^ n) (blockFourier dir low high (amp a))) := by
  have inside : ¬((n : ℤ) - ((high : ℤ) - 1) - 1 < 0 ∨ (high : ℤ) - 1 - low + 1 < 0 ∨
      (low : ℤ) < 0) := by omega
  have top : ((high : ℤ) - 1 + 1).toNat = high := by omega
  rw [fourierBlock_eq_foldlM inside, Int.toNat_natCast, top,
    foldlM_add (N := 2 ^ n) (visitColumn dir low high a) _ _ _ (by simp [zeros])
      fun c e hc visited => fourierVisit_eq dir hlow hhigh ha hc visited]
  congr 1
  apply tabulate_congr
  intro i hi
  simp only [blockTriples, sum_map_flatMap, List.map_map, Function.comp_def, sum_map_range,
    zeros_eq, amp_tabulate, hi, if_true, zero_add, visitColumn]
  -- bring the block value of the source outermost; the rest is a sum over the register
  let term : ℕ → ℕ → ℂ := fun j2 m =>
    fourierEntry dir (2 ^ (high - low)) j2 (blockValue low high m) * amp a (withBlock low high m j2)
  calc _ = ∑ j2 ∈ range (2 ^ (high - low)), ∑ j3 ∈ range (2 ^ (n - high)),
        ∑ k ∈ range (2 ^ (high - low)), ∑ j1 ∈ range (2 ^ low),
          if i = blockIndex low high j3 k j1 then term j2 (blockIndex low high j3 k j1) else 0 := by
        rw [sum_comm]
        refine sum_congr rfl fun j2 _ => sum_congr rfl fun j3 _ => ?_
        rw [sum_comm]
        refine sum_congr rfl fun k hk => sum_congr rfl fun j1 hj1 => ?_
        rw [mem_range] at hk hj1
        simp [term, hlow, hk, hj1]
    _ = blockFourier dir low high (amp a) i :=
        sum_congr rfl fun j2 _ => sum_blocks_ite hlow hhigh hi (term j2)

theorem natCast_last (f : ℕ) : (f : ℤ) = ((f + 1 : ℕ) : ℤ) - 1 := by
  push_cast
  ring

/-- The Fourier transform with any real direction on the qubits `i … f`, entry by entry. Row `j2`
of the transform of size `N = 2^(f - i + 1)` holds `e^(dir·2πi·j2·k/N)/√N` at `k`; at the index
with value `j3` above the block, `k` in it and `j1` below it, the result is `1/√N` times the sum,
over the block values `j2`, of `e^(dir·2πi·j2·k/N)` times the amplitude with the same outer
qubits and block value `j2`. The sum runs over every `j2`, the amplitudes of modulus zero that the
kernel skips included. -/
theorem fourierBlock_entry_eq_sum {n i f : ℕ} (hif : i ≤ f) (hf : f < n) (dir : ℝ) {a : Array ℂ}
    (ha : a.size = 2 ^ n) :
    (∀ j2 : ℕ, j2 < 2 ^ (f - i + 1) → ∀ k < 2 ^ (f - i + 1),
      (fourierRow dir (2 ^ (f - i + 1)) (j2 : ℤ) : Array ℂ).getD k 0 =
        Complex.exp (dir * 2 * Real.pi * Complex.I * j2 * k / (2 ^ (f - i + 1) : ℕ)) /
          Real.sqrt (2 ^ (f - i + 1) : ℕ)) ∧
    ∃ b, fourierBlock n i f dir a = .ok b ∧ b.size = 2 ^ n ∧
      ∀ j1 < 2 ^ i, ∀ k < 2 ^ (f - i + 1), ∀ j3 < 2 ^ (n - f - 1),
        amp b ((j3 <<< (f + 1)) + (k <<< i) + j1) =
          (Real.sqrt (2 ^ (f - i + 1) : ℕ) : ℂ)⁻¹ * ∑ j2 ∈ range (2 ^ (f - i + 1)),
            Complex.exp (dir * 2 * Real.pi * Complex.I * j2 * k / (2 ^ (f - i + 1) : ℕ)) *
              amp a ((j3 <<< (f + 1)) + (j2 <<< i) + j1) := by
  have hlow : i ≤ f + 1 := by omega
  have width : f + 1 - i = f - i + 1 := by omega
  have above : n - (f + 1) = n - f - 1 := by omega
  -- the entries of the Fourier matrix, with their exponent in the order written above
  have entry : ∀ j k, fourierEntry dir (2 ^ (f - i + 1)) j k =
      Complex.exp (dir * 2 * Real.pi * Complex.I * j * k / (2 ^ (f - i + 1) : ℕ)) /
        Real.sqrt (2 ^ (f - i + 1) : ℕ) := by
    intro j k
    rw [fourierEntry]
    push_cast
    ring_nf
  refine ⟨fun j2 _ k hk => by rw [fourierRow_getD dir (by positivity) j2 hk, entry], ?_⟩
  rw [natCast_last f]
  refine ⟨_, fourierBlock_eq dir hlow hf ha, size_tabulate _ _, ?_⟩
  intro j1 hj1 k hk j3 hj3
  rw [← width] at hk
  rw [← above] at hj3
  have index : ∀ m, j3 <<< (f + 1) + m <<< i + j1 = blockIndex i (f + 1) j3 m j1 := fun m => by
    simp only [Nat.shiftLeft_eq, blockIndex]
  rw [index, amp_tabulate, if_pos (blockIndex_lt hlow hf hj3 hk hj1),
    blockFourier_blockIndex dir hlow _ hk hj1, mul_sum, width]
  refine sum_congr rfl fun j2 _ => ?_
  rw [entry, index]
  ring

theorem fourierBlock_entry_eq_sum_one_qubit :
    0 ≤ 0 ∧ 0 < 1 ∧ (#[1, 0] : Array ℂ).size = 2 ^ 1 ∧
    (∀ j2 : ℕ, j2 < 2 ^ (0 - 0 + 1) → ∀ k < 2 ^ (0 - 0 + 1),
      (fourierRow (1 : ℝ) (2 ^ (0 - 0 + 1)) (j2 : ℤ) : Array ℂ).getD k 0 =
        Complex.exp ((1 : ℝ) * 2 * Real.pi * Complex.I * j2 * k / (2 ^ (0 - 0 + 1) : ℕ)) /
          Real.sqrt (2 ^ (0 - 0 + 1) : ℕ)) ∧
    ∃ b, fourierBlock 1 (0 : ℕ) (0 : ℕ) (1 : ℝ) (#[1, 0] : Array ℂ) = .ok b ∧ b.size = 2 ^ 1 ∧
      ∀ j1 < 2 ^ 0, ∀ k < 2 ^ (0 - 0 + 1), ∀ j3 < 2 ^ (1 - 0 - 1),
        amp b ((j3 <<< (0 + 1)) + (k <<< 0) + j1) =
          (Real.sqrt (2 ^ (0 - 0 + 1) : ℕ) : ℂ)⁻¹ * ∑ j2 ∈ range (2 ^ (0 - 0 + 1)),
            Complex.exp ((1 : ℝ) * 2 * Real.pi * Complex.I * j2 * k / (2 ^ (0 - 0 + 1) : ℕ)) *
              amp #[1, 0] ((j3 <<< (0 + 1)) + (j2 <<< 0) + j1) :=
  ⟨le_rfl, one_pos, by simp, fourierBlock_entry_eq_sum le_rfl one_pos 1 (by simp)⟩

/-! ## Orthogonality and the total probability -/

noncomputable def fourierRoot (dir : ℝ) (N : ℕ) : ℂ :=
  Complex.exp ((2 : ℕ) * Real.pi * Complex.I * dir / N)

theorem fourierEntry_eq_pow (dir : ℝ) (N j k : ℕ) :
    fourierEntry dir N j k = fourierRoot dir N ^ (j * k) / Real.sqrt N := by
  rw [fourierEntry, fourierRoot, ← Complex.exp_nat_mul]
  congr 2
  push_cast
  ring

theorem isPrimitiveRoot_fourierRoot {dir : ℝ} (hdir : dir = 1 ∨ dir = -1) {N : ℕ} (hN : N ≠ 0) :
    IsPrimitiveRoot (fourierRoot dir N) N := by
  have forward := Complex.isPrimitiveRoot_exp N hN
  rcases hdir with rfl | rfl
  · simpa [fourierRoot] using forward
  · have backward : fourierRoot (-1) N = (Complex.exp (2 * Real.pi * Complex.I / N))⁻¹ := by
      rw [fourierRoot, ← Complex.exp_neg]
      congr 1
      push_cast
      ring
    rw [backward]
    exact forward.inv

theorem sum_fourierEntry_mul_conj {dir : ℝ} (hdir : dir = 1 ∨ dir = -1) {N : ℕ} (hN : N ≠ 0)
    {j j' : ℕ} (hj : j < N) (hj' : j' < N) :
    ∑ k ∈ range N, fourierEntry dir N j k * conj (fourierEntry dir N j' k) =
      if j = j' then 1 else 0 := by
  have primitive := isPrimitiveRoot_fourierRoot hdir hN
  set ω := fourierRoot dir N
  -- the powers of a root of unity lie on the unit circle
  have unit : ∀ m, ω ^ m * conj (ω ^ m) = 1 := fun m => by
    rw [Complex.mul_conj', norm_pow, primitive.norm'_eq_one hN]
    simp
  have scale : ((Real.sqrt N : ℝ) : ℂ) * (Real.sqrt N : ℝ) = N := by
    rw [← Complex.ofReal_mul, Real.mul_self_sqrt (Nat.cast_nonneg N)]
    simp
  have term : ∀ k, fourierEntry dir N j k * conj (fourierEntry dir N j' k) =
      (ω ^ j * conj (ω ^ j')) ^ k / N := fun k => by
    rw [fourierEntry_eq_pow, fourierEntry_eq_pow, map_div₀, Complex.conj_ofReal, div_mul_div_comm,
      scale, mul_pow, pow_mul, pow_mul, map_pow]
  simp only [term, ← sum_div]
  split_ifs with same
  · subst same
    simp only [unit, one_pow, sum_const, card_range, nsmul_eq_mul, mul_one]
    exact div_self (Nat.cast_ne_zero.mpr hN)
  · set r := ω ^ j * conj (ω ^ j')
    have apart : r ≠ 1 := fun one => same (primitive.pow_inj hj hj' (by
      calc ω ^ j = ω ^ j * (ω ^ j' * conj (ω ^ j')) := by rw [unit, mul_one]
        _ = r * ω ^ j' := by ring
        _ = ω ^ j' := by rw [one, one_mul]))
    have cycle : r ^ N = 1 := by
      rw [mul_pow, ← map_pow, ← pow_mul, ← pow_mul, mul_comm j, mul_comm j', pow_mul, pow_mul,
        primitive.pow_eq_one]
      simp
    have geometric : (r - 1) * ∑ k ∈ range N, r ^ k = 0 := by
      rw [mul_geom_sum, cycle, sub_self]
    rw [(mul_eq_zero.mp geometric).resolve_left (sub_ne_zero.mpr apart), zero_div]

theorem sum_norm_sq_of_orthonormal {N : ℕ} {F : ℕ → ℕ → ℂ}
    (rows : ∀ j < N, ∀ j' < N,
      ∑ k ∈ range N, F j k * conj (F j' k) = if j = j' then 1 else 0) (x : ℕ → ℂ) :
    ∑ k ∈ range N, ‖∑ j ∈ range N, F j k * x j‖ ^ 2 = ∑ j ∈ range N, ‖x j‖ ^ 2 := by
  have expand : ∀ k, (∑ j ∈ range N, F j k * x j) * conj (∑ j' ∈ range N, F j' k * x j') =
      ∑ j ∈ range N, ∑ j' ∈ range N, x j * conj (x j') * (F j k * conj (F j' k)) := fun k => by
    rw [map_sum, sum_mul_sum]
    refine sum_congr rfl fun j _ => sum_congr rfl fun j' _ => ?_
    rw [map_mul]
    ring
  apply Complex.ofReal_injective
  push_cast
  calc ∑ k ∈ range N, (‖∑ j ∈ range N, F j k * x j‖ : ℂ) ^ 2
      = ∑ k ∈ range N, ∑ j ∈ range N, ∑ j' ∈ range N,
          x j * conj (x j') * (F j k * conj (F j' k)) := by
        simp only [← Complex.mul_conj', expand]
    _ = ∑ j ∈ range N, ∑ j' ∈ range N,
          x j * conj (x j') * ∑ k ∈ range N, F j k * conj (F j' k) := by
        rw [sum_comm]
        refine sum_congr rfl fun j _ => ?_
        rw [sum_comm]
        simp only [mul_sum]
    _ = ∑ j ∈ range N, x j * conj (x j) := by
        refine sum_congr rfl fun j hj => ?_
        rw [sum_congr rfl fun j' hj' => by rw [rows j (mem_range.mp hj) j' (mem_range.mp hj')]]
        simp [hj]
    _ = ∑ j ∈ range N, (‖x j‖ : ℂ) ^ 2 := by simp only [Complex.mul_conj']

theorem sum_norm_blockFourier {dir : ℝ} (hdir : dir = 1 ∨ dir = -1) (hlow : low ≤ high)
    (hhigh : high ≤ n) (f : ℕ → ℂ) :
    ∑ i ∈ range (2 ^ n), ‖blockFourier dir low high f i‖ ^ 2 = ∑ i ∈ range (2 ^ n), ‖f i‖ ^ 2 := by
  have rows := fun j (hj : j < 2 ^ (high - low)) j' (hj' : j' < 2 ^ (high - low)) =>
    sum_fourierEntry_mul_conj hdir (by positivity) hj hj'
  rw [← sum_blocks hlow hhigh, ← sum_blocks hlow hhigh]
  refine sum_congr rfl fun j3 _ => ?_
  -- for fixed outer qubits the block transform is the Fourier matrix on the block values
  calc _ = ∑ j1 ∈ range (2 ^ low), ∑ k ∈ range (2 ^ (high - low)),
        ‖∑ j ∈ range (2 ^ (high - low)),
          fourierEntry dir (2 ^ (high - low)) j k * f (blockIndex low high j3 j j1)‖ ^ 2 := by
        rw [sum_comm]
        refine sum_congr rfl fun j1 hj1 => sum_congr rfl fun k hk => ?_
        rw [mem_range] at hj1 hk
        simp [blockFourier, hlow, hj1, hk]
    _ = ∑ j1 ∈ range (2 ^ low), ∑ j ∈ range (2 ^ (high - low)),
        ‖f (blockIndex low high j3 j j1)‖ ^ 2 :=
        sum_congr rfl fun j1 _ => sum_norm_sq_of_orthonormal rows _
    _ = _ := sum_comm

theorem fourierEntry_comm (dir : ℝ) (N j k : ℕ) :
    fourierEntry dir N j k = fourierEntry dir N k j := by
  simp only [fourierEntry]
  ring_nf

theorem fourierEntry_neg (dir : ℝ) (N j k : ℕ) :
    fourierEntry (-dir) N j k = conj (fourierEntry dir N j k) := by
  simp only [fourierEntry, map_div₀, ← Complex.exp_conj, Complex.conj_ofReal, map_mul, map_natCast,
    Complex.conj_I]
  push_cast
  ring_nf

theorem normSq_fourierBlock {dir : ℝ} (hdir : dir = 1 ∨ dir = -1) (hlow : low ≤ high)
    (hhigh : high ≤ n) {a : Array ℂ} (ha : a.size = 2 ^ n) :
    ∃ b, fourierBlock n low ((high : ℤ) - 1) dir a = .ok b ∧ normSq b = normSq a := by
  refine ⟨_, fourierBlock_eq dir hlow hhigh ha, ?_⟩
  rw [normSq_tabulate, sum_norm_blockFourier hdir hlow hhigh, normSq, ha]

/-! ## The inverse transform -/

theorem sum_fourierEntry_mul_neg {dir : ℝ} (hdir : dir = 1 ∨ dir = -1) {N : ℕ} (hN : N ≠ 0)
    {l m : ℕ} (hl : l < N) (hm : m < N) :
    ∑ j ∈ range N, fourierEntry dir N l j * fourierEntry (-dir) N j m = if l = m then 1 else 0 := by
  rw [← sum_fourierEntry_mul_conj hdir hN hl hm]
  refine sum_congr rfl fun j _ => ?_
  rw [fourierEntry_neg, fourierEntry_comm dir N j m]

theorem blockFourier_neg_blockFourier {dir : ℝ} (hdir : dir = 1 ∨ dir = -1) (hlow : low ≤ high)
    (F : ℕ → ℂ) (i : ℕ) : blockFourier (-dir) low high (blockFourier dir low high F) i = F i := by
  have hv := blockValue_lt hlow i
  -- both transforms act on the block value alone, the outer qubits of `i` staying fixed
  calc blockFourier (-dir) low high (blockFourier dir low high F) i
      = ∑ j ∈ range (2 ^ (high - low)),
          fourierEntry (-dir) (2 ^ (high - low)) j (blockValue low high i) *
            ∑ l ∈ range (2 ^ (high - low)),
              fourierEntry dir (2 ^ (high - low)) l j * F (withBlock low high i l) := by
        refine sum_congr rfl fun j hj => ?_
        simp only [blockFourier, blockValue_withBlock hlow (mem_range.mp hj),
          withBlock_withBlock hlow (mem_range.mp hj)]
    _ = ∑ l ∈ range (2 ^ (high - low)), (∑ j ∈ range (2 ^ (high - low)),
          fourierEntry dir (2 ^ (high - low)) l j *
            fourierEntry (-dir) (2 ^ (high - low)) j (blockValue low high i)) *
          F (withBlock low high i l) := by
        simp only [mul_sum, sum_mul]
        rw [sum_comm]
        exact sum_congr rfl fun l _ => sum_congr rfl fun j _ => by ring
    _ = ∑ l ∈ range (2 ^ (high - low)),
          (if l = blockValue low high i then 1 else 0) * F (withBlock low high i l) :=
        sum_congr rfl fun l hl => by
          rw [sum_fourierEntry_mul_neg hdir (by positivity) (mem_range.mp hl) hv]
    _ = F i := by simp [hv, withBlock_blockValue hlow]

theorem fourierBlock_bind_neg {dir : ℝ} (hdir : dir = 1 ∨ dir = -1) (hlow : low ≤ high)
    (hhigh : high ≤ n) {a : Array ℂ} (ha : a.size = 2 ^ n) :
    (fourierBlock n low ((high : ℤ) - 1) dir a >>= fourierBlock n low ((high : ℤ) - 1) (-dir)) =
      .ok a := by
  rw [fourierBlock_eq dir hlow hhigh ha, ok_bind,
    fourierBlock_eq (-dir) hlow hhigh (size_tabulate _ _)]
  conv_rhs => rw [← tabulate_amp ha]
  congr 1
  apply tabulate_congr
  intro i hi
  have inside : ∀ j < 2 ^ n, amp (tabulate (2 ^ n) (blockFourier dir low high (amp a))) j =
      blockFourier dir low high (amp a) j := fun j hj => by simp [hj]
  rw [blockFourier_congr (-dir) hlow hhigh inside i hi]
  exact blockFourier_neg_blockFourier hdir hlow (amp a) i

end Gate

end Qubits
