import Qubits.Proofs.WalshHadamard

/-!
# Grover's iteration on amplitudes

The samples search for a basis state `s` of an `n`-qubit register, `N = 2^n`, by repeating a
block of four gates: the sign flip of `s`, the Walsh–Hadamard transform, the sign flip of `0` and
the transform again (`groverStep`). The transform undoes itself (`stagedWalsh_stagedWalsh`), so
the last three gates reflect about the uniform state: they take `f` to
`f - (2/N) ∑ⱼ f j` (`stagedWalsh_flipSign_zero`).

A state with amplitude `a` at `s` and `b` at every other basis state (`pairState`) stays of that
form, with the pair `(a, b)` going to `(-a - μ, b - μ)` for `μ = 2((N-1)b - a)/N`
(`groverStep_pairState`). From the uniform state, `t` iterations give
`(-1)^t sin((2t+1)θ)` at `s` and `(-1)^t cos((2t+1)θ)/√(N-1)` elsewhere, with
`θ = arcsin(1/√N)` (`groverPair_iterate`).
-/

namespace Qubits.Gate

open Finset StateVector Bits

theorem onQubits_cons (u : Bool → Bool → ℂ) (p : ℕ) (qs : List ℕ) (f : ℕ → ℂ) :
    onQubits u (p :: qs) f = onQubits u qs (onQubit u p f) := rfl

theorem onQubits_append (u : Bool → Bool → ℂ) (qs qs' : List ℕ) (f : ℕ → ℂ) :
    onQubits u (qs ++ qs') f = onQubits u qs' (onQubits u qs f) :=
  List.foldl_append

theorem onQubits_append_reverse {u : Bool → Bool → ℂ}
    (inv : ∀ p f, onQubit u p (onQubit u p f) = f) :
    ∀ (qs : List ℕ) (f : ℕ → ℂ), onQubits u (qs ++ qs.reverse) f = f
  | [], _ => rfl
  | q :: qs, f => by
    -- the gates pair off from the middle outwards
    rw [List.reverse_cons, List.cons_append, ← List.append_assoc, onQubits_cons,
      onQubits_append_singleton, onQubits_append_reverse inv qs, inv]

theorem stagedWalsh_stagedWalsh (n : ℕ) (f : ℕ → ℂ) : stagedWalsh n (stagedWalsh n f) = f := by
  rw [← onQubits_hadamardMatrix_range f n, ← onQubits_hadamardMatrix_range _ n,
    onQubits_perm _ (List.reverse_perm (List.range n)).symm, ← onQubits_append]
  exact onQubits_append_reverse (fun p g => onQubit_hadamardMatrix_hadamardMatrix p g) _ f

theorem stagedWalsh_congr {n : ℕ} {f g : ℕ → ℂ} (h : ∀ i < 2 ^ n, f i = g i) :
    ∀ k < 2 ^ n, stagedWalsh n f k = stagedWalsh n g k := by
  intro k hk
  rw [stagedWalsh_whole f hk, stagedWalsh_whole g hk]
  congr 1
  exact sum_congr rfl fun j hj => by rw [h j (mem_range.mp hj)]

theorem stagedWalsh_at_zero (n : ℕ) (f : ℕ → ℂ) :
    stagedWalsh n f 0 = (Real.sqrt ((2 ^ n : ℕ) : ℝ) : ℂ)⁻¹ * ∑ j ∈ range (2 ^ n), f j := by
  simp [stagedWalsh_whole f (Nat.two_pow_pos n)]

theorem inv_sqrt_mul_self (N : ℕ) :
    (Real.sqrt (N : ℝ) : ℂ)⁻¹ * (Real.sqrt (N : ℝ) : ℂ)⁻¹ = (N : ℂ)⁻¹ := by
  rw [← mul_inv, ← Complex.ofReal_mul, Real.mul_self_sqrt (Nat.cast_nonneg N)]
  norm_num

def flipSign (s : ℕ) (f : ℕ → ℂ) (i : ℕ) : ℂ := if i = s then -f i else f i

theorem sum_mul_flipSign {N s : ℕ} (hs : s < N) (c f : ℕ → ℂ) :
    ∑ j ∈ range N, c j * flipSign s f j = ∑ j ∈ range N, c j * f j - 2 * (c s * f s) := by
  have split (j : ℕ) : c j * flipSign s f j = c j * f j - if s = j then 2 * (c j * f j) else 0 := by
    unfold flipSign
    by_cases same : j = s
    · rw [if_pos same, if_pos same.symm, same]
      ring
    · rw [if_neg same, if_neg (Ne.symm same), sub_zero]
  rw [sum_congr rfl fun j _ => split j, sum_sub_distrib, sum_ite_eq, if_pos (mem_range.mpr hs)]

theorem stagedWalsh_flipSign_zero {n : ℕ} (f : ℕ → ℂ) {k : ℕ} (hk : k < 2 ^ n) :
    stagedWalsh n (flipSign 0 (stagedWalsh n f)) k =
      f k - 2 / (2 ^ n : ℕ) * ∑ j ∈ range (2 ^ n), f j := by
  calc stagedWalsh n (flipSign 0 (stagedWalsh n f)) k
      = (Real.sqrt ((2 ^ n : ℕ) : ℝ) : ℂ)⁻¹ * (∑ j ∈ range (2 ^ n),
          (-1) ^ popCount (j &&& k) * stagedWalsh n f j - 2 * stagedWalsh n f 0) := by
        rw [stagedWalsh_whole _ hk, sum_mul_flipSign (Nat.two_pow_pos n)]
        simp
    _ = stagedWalsh n (stagedWalsh n f) k -
          2 * (Real.sqrt ((2 ^ n : ℕ) : ℝ) : ℂ)⁻¹ * stagedWalsh n f 0 := by
        rw [stagedWalsh_whole _ hk]
        ring
    _ = f k - 2 / (2 ^ n : ℕ) * ∑ j ∈ range (2 ^ n), f j := by
        rw [stagedWalsh_stagedWalsh, stagedWalsh_at_zero, ← mul_assoc, mul_assoc 2,
          inv_sqrt_mul_self, div_eq_mul_inv]

/-- One iteration of Grover's search for `s` on `n` qubits, as the samples write it: the sign flip
of `s`, the Walsh–Hadamard transform, the sign flip of `|0…0⟩` and the transform again. -/
noncomputable def groverStep (n s : ℕ) (f : ℕ → ℂ) : ℕ → ℂ :=
  stagedWalsh n (flipSign 0 (stagedWalsh n (flipSign s f)))

theorem groverStep_congr {n s : ℕ} {f g : ℕ → ℂ} (h : ∀ i < 2 ^ n, f i = g i) :
    ∀ k < 2 ^ n, groverStep n s f k = groverStep n s g k := by
  have flipped : ∀ i < 2 ^ n, flipSign s f i = flipSign s g i := fun i hi => by
    simp only [flipSign, h i hi]
  have inner := stagedWalsh_congr flipped
  exact stagedWalsh_congr fun i hi => by simp only [flipSign, inner i hi]

def pairState (s : ℕ) (a b : ℝ) (i : ℕ) : ℂ := if i = s then (a : ℂ) else (b : ℂ)

/-- One iteration on the amplitudes `(a, b)` of the target and of every other basis state of a
register of `N` amplitudes: both lose `μ = 2((N-1)b - a)/N`, and the target changes sign. -/
noncomputable def groverPair (N : ℕ) (p : ℝ × ℝ) : ℝ × ℝ :=
  (-p.1 - 2 • ((N - 1) * p.2 - p.1) * (N : ℝ)⁻¹, p.2 - 2 • ((N - 1) * p.2 - p.1) * (N : ℝ)⁻¹)

theorem flipSign_pairState (s : ℕ) (a b : ℝ) : flipSign s (pairState s a b) = pairState s (-a) b := by
  funext i
  unfold flipSign pairState
  split <;> simp

theorem sum_pairState {N s : ℕ} (hs : s < N) (a b : ℝ) :
    ∑ j ∈ range N, pairState s a b j = a + (N - 1) * b := by
  have split (j : ℕ) : pairState s a b j = b + if s = j then (a - b : ℂ) else 0 := by
    unfold pairState
    by_cases same : j = s
    · rw [if_pos same, if_pos same.symm]
      ring
    · rw [if_neg same, if_neg (Ne.symm same), add_zero]
  rw [sum_congr rfl fun j _ => split j, sum_add_distrib, sum_ite_eq, if_pos (mem_range.mpr hs),
    sum_const, card_range, nsmul_eq_mul]
  ring

theorem groverStep_pairState {n s : ℕ} (hs : s < 2 ^ n) (p : ℝ × ℝ) {k : ℕ} (hk : k < 2 ^ n) :
    groverStep n s (pairState s p.1 p.2) k =
      pairState s (groverPair (2 ^ n) p).1 (groverPair (2 ^ n) p).2 k := by
  rw [groverStep, flipSign_pairState, stagedWalsh_flipSign_zero _ hk, sum_pairState hs]
  unfold pairState groverPair
  split <;> push_cast [nsmul_eq_mul] <;> ring

theorem stagedWalsh_ground {n : ℕ} (s : ℕ) {k : ℕ} (hk : k < 2 ^ n) :
    stagedWalsh n (fun i => if i = 0 then 1 else 0) k =
      pairState s (1 / Real.sqrt ((2 ^ n : ℕ) : ℝ)) (1 / Real.sqrt ((2 ^ n : ℕ) : ℝ)) k := by
  rw [stagedWalsh_whole _ hk]
  simp [pairState, Finset.sum_ite_eq', Nat.two_pow_pos n]

theorem iterate_groverStep_pairState {n s : ℕ} (hs : s < 2 ^ n) (t : ℕ) :
    ∀ (p : ℝ × ℝ) (f : ℕ → ℂ), (∀ i < 2 ^ n, f i = pairState s p.1 p.2 i) →
      ∀ k < 2 ^ n, (groverStep n s)^[t] f k =
        pairState s ((groverPair (2 ^ n))^[t] p).1 ((groverPair (2 ^ n))^[t] p).2 k := by
  induction t with
  | zero => exact fun p f agrees => agrees
  | succ t ih =>
    intro p f agrees
    -- the first iteration gives the pair state of the next pair, the other `t` go on from there
    have once : ∀ i < 2 ^ n, groverStep n s f i =
        pairState s (groverPair (2 ^ n) p).1 (groverPair (2 ^ n) p).2 i :=
      fun i hi => (groverStep_congr agrees i hi).trans (groverStep_pairState hs p hi)
    intro k hk
    rw [Function.iterate_succ_apply, Function.iterate_succ_apply]
    exact ih _ _ once k hk

noncomputable def groverAngle (N : ℕ) : ℝ := Real.arcsin (1 / Real.sqrt N)

section Angle

variable {N : ℕ} (big : 2 ≤ N)
include big

theorem sin_groverAngle : Real.sin (groverAngle N) = 1 / Real.sqrt N := by
  have root : 1 ≤ Real.sqrt N := Real.one_le_sqrt.mpr (by exact_mod_cast (by omega : 1 ≤ N))
  rw [groverAngle, Real.sin_arcsin (by linarith [one_div_pos.mpr (by linarith : (0 : ℝ) < Real.sqrt N)])
    ((div_le_one (by linarith)).mpr root)]

theorem cos_groverAngle : Real.cos (groverAngle N) = Real.sqrt (N - 1) / Real.sqrt N := by
  have positive : (0 : ℝ) < N := by exact_mod_cast (by omega : 0 < N)
  rw [groverAngle, Real.cos_arcsin, div_pow, one_pow, Real.sq_sqrt positive.le,
    one_sub_div positive.ne', Real.sqrt_div' _ positive.le]

theorem groverPair_trig (ε α : ℝ) :
    groverPair N (ε * Real.sin α, ε * Real.cos α / Real.sqrt (N - 1)) =
      (-ε * Real.sin (α + 2 * groverAngle N),
        -ε * Real.cos (α + 2 * groverAngle N) / Real.sqrt (N - 1)) := by
  have positive : (0 : ℝ) < N - 1 := by
    have : (2 : ℝ) ≤ N := by exact_mod_cast big
    linarith
  have hr : Real.sqrt N ^ 2 = N := Real.sq_sqrt (by linarith)
  have hq : Real.sqrt (N - 1) ^ 2 = N - 1 := Real.sq_sqrt positive.le
  have rpos : 0 < Real.sqrt N := Real.sqrt_pos.mpr (by linarith)
  have qpos : 0 < Real.sqrt (N - 1) := Real.sqrt_pos.mpr positive
  rw [Real.sin_add, Real.cos_add, Real.sin_two_mul, Real.cos_two_mul, sin_groverAngle big,
    cos_groverAngle big]
  -- what is left is an identity of fractions in `√N` and `√(N-1)`
  generalize Real.sqrt N = r at hr rpos ⊢
  generalize Real.sqrt (N - 1) = q at hq qpos ⊢
  unfold groverPair
  simp only [Prod.mk.injEq, nsmul_eq_mul, Nat.cast_ofNat]
  constructor
  · field_simp
    linear_combination
      (ε * (-2 * Real.sin α * N * q - 2 * (N - 1) * Real.cos α + 2 * Real.sin α * q)) * hr +
        (2 * ε * N * (Real.sin α * q + Real.cos α)) * hq
  · field_simp
    linear_combination (ε * (-2 * Real.cos α * (N - 1) + 2 * q * Real.sin α)) * hr +
      (2 * ε * N * Real.cos α) * hq

theorem groverPair_iterate (t : ℕ) :
    (groverPair N)^[t] (1 / Real.sqrt N, 1 / Real.sqrt N) =
      ((-1) ^ t * Real.sin ((2 * t + 1) * groverAngle N),
        (-1) ^ t * Real.cos ((2 * t + 1) * groverAngle N) / Real.sqrt (N - 1)) := by
  induction t with
  | zero =>
    have positive : (0 : ℝ) < N - 1 := by
      have : (2 : ℝ) ≤ N := by exact_mod_cast big
      linarith
    simp only [Function.iterate_zero, id_eq, pow_zero, one_mul, Nat.cast_zero, mul_zero, zero_add]
    rw [sin_groverAngle big, cos_groverAngle big, div_div_cancel_left' (Real.sqrt_pos.mpr positive).ne',
      one_div]
  | succ t ih =>
    have angle : (2 * t + 1) * groverAngle N + 2 * groverAngle N =
        (2 * ((t + 1 : ℕ) : ℝ) + 1) * groverAngle N := by
      push_cast
      ring
    rw [Function.iterate_succ_apply', ih, groverPair_trig big, angle, pow_succ]
    congr 1 <;> ring

end Angle

end Qubits.Gate
