import Qubits.Proofs.FirstPass
import Qubits.Proofs.BasisIndex
import Qubits.Proofs.Permutation
import Qubits.Proofs.FourierBlock

namespace Qubits

open StateVector Bits

variable {R K : Type} [RealScalar R] [Amplitude R K]

theorem foldlM_ok {ε α β : Type} {P : α → Prop} {f : α → β → Except ε α} {l : List β}
    (step : ∀ a x, x ∈ l → P a → ∃ a', f a x = .ok a' ∧ P a') {a : α} (ha : P a) :
    ∃ a', l.foldlM f a = .ok a' ∧ P a' := by
  induction l generalizing a with
  | nil => exact ⟨a, rfl, ha⟩
  | cons x l ih =>
    obtain ⟨a', hx, ha'⟩ := step a x List.mem_cons_self ha
    rw [List.foldlM_cons, hx, ok_bind]
    exact ih (fun b y hy hb => step b y (List.mem_cons_of_mem x hy) hb) ha'

theorem foldl_invariant {α β : Type} (I : α → Prop) {f : α → β → α} (l : List β)
    (step : ∀ a b, I a → I (f a b)) {a : α} (ha : I a) : I (l.foldl f a) := by
  induction l generalizing a with
  | nil => exact ha
  | cons b l ih => exact ih (step a b ha)

namespace Gate

def Returns (N : ℕ) (r : Except Fault (Array K)) : Prop := ∃ b, r = .ok b ∧ b.size = N

theorem position_of_nonneg {q : ℤ} (hq : 0 ≤ q) : position q = .ok q.toNat := by
  simp [position, not_lt.mpr hq]

omit [RealScalar R] in
theorem accumulate_bind_returns {b : Array K} {j N : ℕ} (hj : j < b.size) (v : K)
    {next : Array K → Except Fault (Array K)} (hnext : ∀ c, c.size = b.size → Returns N (next c)) :
    Returns N (accumulate b j v >>= next) := by
  rw [accumulate_of_lt hj, ok_bind]
  exact hnext _ (Array.size_set _)

omit [RealScalar R] in
theorem accumulate_returns {b : Array K} {j : ℕ} (hj : j < b.size) (v : K) :
    Returns b.size (accumulate b j v) :=
  ⟨_, accumulate_of_lt hj v, Array.size_set _⟩

omit [RealScalar R] in
theorem sweep_returns {a : Array K} {count N : ℕ} (hcount : count ≤ a.size) {b : Array K}
    (hb : b.size = N) {body : Array K → ℕ → K → Except Fault (Array K)}
    (hbody : ∀ c j x, c.size = N → j < count → Returns N (body c j x)) :
    Returns N (sweep a count b body) := by
  unfold sweep
  -- every index the sweep visits is read inside the vector, and every step keeps the size
  suffices visit : ∀ js : List ℕ, (∀ j ∈ js, j < count) → ∀ c : Array K, c.size = N →
      Returns N (js.foldlM (fun c j => do
        let x ← read a j
        if Amplitude.isZero x then pure c else body c j x) c) from
    visit _ (fun j hj => List.mem_range.mp hj) b hb
  intro js
  induction js with
  | nil => exact fun _ c hc => ⟨c, rfl, hc⟩
  | cons j js ih =>
    intro inside c hc
    have hj := inside j List.mem_cons_self
    have rest : ∀ j' ∈ js, j' < count := fun j' mem => inside j' (List.mem_cons_of_mem j mem)
    rw [List.foldlM_cons, read_of_lt (by omega), ok_bind]
    split
    · exact ih rest c hc
    · obtain ⟨c', step, size⟩ := hbody c j _ hc hj
      rw [step, ok_bind]
      exact ih rest c' size

theorem hadamard_returns {n : ℕ} {q : ℤ} (h0 : 0 ≤ q) (hq : q < n) {a : Array K}
    (ha : a.size = 2 ^ n) : Returns (2 ^ n) (hadamard n q a) := by
  have hp : q.toNat < n := by omega
  unfold hadamard
  simp only [Nat.pow_eq]
  refine sweep_returns ha.ge (size_zeros _) fun c j x hc hj => ?_
  rw [position_of_nonneg h0, ok_bind]
  split
  · exact accumulate_bind_returns (hc ▸ clearNat_lt hj) _ fun c' hc' =>
      hc ▸ hc' ▸ accumulate_returns (by omega) _
  · exact accumulate_bind_returns (by omega) _ fun c' hc' =>
      hc ▸ hc' ▸ accumulate_returns (hc' ▸ hc ▸ setNat_lt hj hp) _

omit [RealScalar R] in
theorem flip_returns {toOne toZero : K → K} {n : ℕ} {q : ℤ} (h0 : 0 ≤ q) (hq : q < n)
    {a : Array K} (ha : a.size = 2 ^ n) : Returns (2 ^ n) (flip toOne toZero n q a) := by
  have hp : q.toNat < n := by omega
  unfold flip
  simp only [Nat.pow_eq]
  refine sweep_returns ha.ge (size_zeros _) fun c j x hc hj => ?_
  rw [position_of_nonneg h0, ok_bind]
  split
  · exact hc ▸ accumulate_returns (hc ▸ clearNat_lt hj) _
  · exact hc ▸ accumulate_returns (hc ▸ setNat_lt hj hp) _

omit [RealScalar R] in
theorem diagonal_returns {phase : K → K} {n : ℕ} {q : ℤ} (h0 : 0 ≤ q) {a : Array K}
    (ha : a.size = 2 ^ n) : Returns (2 ^ n) (diagonal phase n q a) := by
  unfold diagonal
  simp only [Nat.pow_eq]
  refine sweep_returns ha.ge (size_zeros _) fun c j x hc hj => ?_
  rw [position_of_nonneg h0, ok_bind]
  exact hc ▸ accumulate_returns (by omega) _

theorem OneQubit.apply_returns (g : OneQubit) {n : ℕ} {q : ℤ} (h0 : 0 ≤ q) (hq : q < n)
    {a : Array K} (ha : a.size = 2 ^ n) : Returns (2 ^ n) (g.apply n q a) := by
  cases g with
  | id => exact ⟨a, rfl, ha⟩
  | h => exact hadamard_returns h0 hq ha
  | x => exact flip_returns h0 hq ha
  | y => exact flip_returns h0 hq ha
  | _ => exact diagonal_returns h0 ha

theorem hadamardAll_returns {n : ℕ} (hn : 0 < n) {a : Array K} (ha : a.size = 2 ^ n) :
    Returns (2 ^ n) (hadamardAll n a) := by
  unfold hadamardAll
  rw [if_neg (by omega)]
  -- the Hadamard gates run over the qubits in turn, each on a vector of the register's size
  suffices each : ∀ qs : List ℕ, (∀ q ∈ qs, q < n) → ∀ c : Array K, c.size = 2 ^ n →
      Returns (2 ^ n) (qs.foldlM (fun c (q : ℕ) => hadamard n q c) c) from
    each _ (fun q hq => List.mem_range.mp hq) a ha
  intro qs
  induction qs with
  | nil => exact fun _ c hc => ⟨c, rfl, hc⟩
  | cons q qs ih =>
    intro inside c hc
    obtain ⟨c', step, size⟩ := hadamard_returns (Int.natCast_nonneg q)
      (by exact_mod_cast inside q List.mem_cons_self) hc
    rw [List.foldlM_cons, step, ok_bind]
    exact ih (fun q' mem => inside q' (List.mem_cons_of_mem q mem)) c' size

omit [RealScalar R] in
theorem controlledNot_returns {n : ℕ} {c t : ℤ} (hc : 0 ≤ c) (ht0 : 0 ≤ t) (ht : t < n)
    {a : Array K} (ha : a.size = 2 ^ n) : Returns (2 ^ n) (controlledNot n c t a) := by
  have hp : t.toNat < n := by omega
  unfold controlledNot
  simp only [Nat.pow_eq]
  refine sweep_returns ha.ge (size_zeros _) fun b j x hb hj => ?_
  rw [position_of_nonneg hc, ok_bind, position_of_nonneg ht0, ok_bind]
  split
  · exact hb ▸ accumulate_returns (by omega) _
  · split
    · exact hb ▸ accumulate_returns (hb ▸ clearNat_lt hj) _
    · exact hb ▸ accumulate_returns (hb ▸ setNat_lt hj hp) _

theorem rootPhase_error {k : R} {e : Fault} (h : rootPhase (K := K) k = .error e) :
    e = .complexDivisionByZero := by
  unfold rootPhase at h
  split at h <;> simp_all

theorem phaseRoot_returns {n : ℕ} {q : ℤ} (h0 : 0 ≤ q) {k : R} {a : Array K}
    (ha : a.size = 2 ^ n) :
    Returns (2 ^ n) (phaseRoot n q k a) ∨ phaseRoot n q k a = .error .complexDivisionByZero := by
  unfold phaseRoot
  cases hw : rootPhase (K := K) k with
  | error e => exact .inr (by rw [rootPhase_error hw]; rfl)
  | ok w => exact .inl (diagonal_returns h0 ha)

theorem controlledPhase_returns {n : ℕ} {c t : ℤ} (hc : 0 ≤ c) (ht : 0 ≤ t) {k : R}
    {a : Array K} (ha : a.size = 2 ^ n) :
    Returns (2 ^ n) (controlledPhase n c t k a) ∨
      controlledPhase n c t k a = .error .complexDivisionByZero := by
  unfold controlledPhase
  cases hw : rootPhase (K := K) k with
  | error e => exact .inr (by rw [rootPhase_error hw]; rfl)
  | ok w =>
    refine .inl ?_
    rw [ok_bind]
    simp only [Nat.pow_eq]
    refine sweep_returns ha.ge (size_zeros _) fun b j x hb hj => ?_
    rw [position_of_nonneg hc, ok_bind, position_of_nonneg ht, ok_bind]
    split
    · exact hb ▸ accumulate_returns (by omega) _
    · exact hb ▸ accumulate_returns (by omega) _

omit [RealScalar R] in
theorem reverseQubits_returns (n : ℕ) {a : Array K} (ha : a.size = 2 ^ n) :
    Returns (2 ^ n) (reverseQubits n a) := by
  rw [reverseQubits_eq_foldlM]
  -- each index is read inside the vector and written to its reversal, also inside
  suffices each : ∀ js : List ℕ, (∀ j ∈ js, j < 2 ^ n) → ∀ b : Array K, b.size = 2 ^ n →
      Returns (2 ^ n) (js.foldlM (fun b j => do
        let x ← read a j
        write b (reverseBits n j) x) b) from
    each _ (fun j hj => List.mem_range.mp hj) _ (size_zeros _)
  intro js
  induction js with
  | nil => exact fun _ b hb => ⟨b, rfl, hb⟩
  | cons j js ih =>
    intro inside b hb
    rw [List.foldlM_cons, read_of_lt (by rw [ha]; exact inside j List.mem_cons_self), ok_bind,
      write_of_lt (by rw [hb]; exact reverseBits_lt n j), ok_bind]
    exact ih (fun j' mem => inside j' (List.mem_cons_of_mem j mem)) _ (by rw [Array.size_set, hb])

omit [RealScalar R] in
theorem negateAt_returns {index : ℤ} {a : Array K} (h0 : 0 ≤ index) (inside : index < a.size)
    (small : a.size ≤ 2 ^ 63) : Returns a.size (negateAt index a) := by
  have hj : index.toNat < a.size := by omega
  have resolved : resolve a index = .ok index.toNat := by
    unfold resolve
    rw [if_neg (by simp only [Int.pow_eq]; omega), if_neg (by simp only [Int.pow_eq]; omega),
      if_pos ⟨h0, inside⟩]
  unfold negateAt
  rw [resolved, ok_bind, read_of_lt hj, ok_bind, write_of_lt hj]
  exact ⟨_, rfl, Array.size_set _⟩

theorem fourierVisit_returns {n low high : ℕ} (hlow : low ≤ high) (hhigh : high ≤ n) (dir : R)
    {a b : Array K} (ha : a.size = 2 ^ n) (hb : b.size = 2 ^ n) {t : ℕ × ℕ × ℕ}
    (visited : t ∈ blockTriples n low high) : Returns (2 ^ n) (fourierVisit dir low high a b t) := by
  obtain ⟨j3, j2, j1⟩ := t
  obtain ⟨hj3, hj2, hj1⟩ := mem_blockTriples.mp visited
  have source : blockIndex low high j3 j2 j1 < a.size := by
    rw [ha]
    exact blockIndex_lt hlow hhigh hj3 hj2 hj1
  simp only [fourierVisit, read_of_lt source, ok_bind]
  split
  · -- the row adds to the block values `k` below its size, all inside the vector
    refine foldlM_ok (fun c k mem (hc : c.size = 2 ^ n) => ?_) hb
    rw [fourierRow_size, List.mem_range] at mem
    obtain ⟨c', added, size⟩ := accumulate_returns (hc ▸ blockIndex_lt hlow hhigh hj3 mem hj1)
      (_ : K)
    exact ⟨c', added, size.trans hc⟩
  · exact ⟨b, rfl, hb⟩

theorem fourierBlock_returns_of_block {n : ℕ} {i f : ℤ} {dir : R} {a : Array K}
    (ha : a.size = 2 ^ n) (block : ¬((n : ℤ) - f - 1 < 0 ∨ f - i + 1 < 0 ∨ i < 0)) :
    Returns (2 ^ n) (fourierBlock n i f dir a) := by
  rw [fourierBlock_eq_foldlM block]
  -- past the check, the block is `low … high - 1` with `low ≤ high ≤ n`
  have hlow : i.toNat ≤ (f + 1).toNat := by omega
  have hhigh : (f + 1).toNat ≤ n := by omega
  exact foldlM_ok (fun b _ visited hb => fourierVisit_returns hlow hhigh dir ha hb visited)
    (size_zeros _)

theorem fourierBlock_returns {n : ℕ} {i f : ℤ} {dir : R} {a : Array K} (ha : a.size = 2 ^ n) :
    Returns (2 ^ n) (fourierBlock n i f dir a) ∨
      fourierBlock n i f dir a = .error .fractionalCount := by
  by_cases refused : (n : ℤ) - f - 1 < 0 ∨ f - i + 1 < 0 ∨ i < 0
  · exact .inr (fourierBlock_refused refused dir a)
  · exact .inl (fourierBlock_returns_of_block ha refused)

end Gate

namespace Script

open Std.Do

set_option mvcgen.warning false

theorem registerSize_ok {n m : ℕ} (h : registerSize n = .ok m) : m = 2 ^ n := by
  unfold registerSize at h
  split_ifs at h with neg big huge
  · simp only [Except.ok.injEq] at h
    simp [← h, Nat.pow_eq]

theorem registerSize_small {n : ℕ} (small : n < 59) : registerSize n = .ok (2 ^ n) := by
  unfold registerSize
  rw [if_neg (by omega), if_neg (by omega), if_neg (by omega), Int.toNat_natCast, Nat.pow_eq]

theorem registerSize_small_of_ok {n m : ℕ} (h : registerSize n = .ok m) : n < 59 := by
  unfold registerSize at h
  split_ifs at h with neg big huge
  omega

theorem allocated_nonempty {n m : ℕ} (h : registerSize n = .ok m) : 0 < m :=
  registerSize_ok h ▸ Nat.two_pow_pos n

theorem allocatable_printable : 59 ≤ Nat.pow 10 Text.maxIntDigits := by
  have hundred : 10 ^ 2 ≤ 10 ^ Text.maxIntDigits := Nat.pow_le_pow_right (by norm_num) (by decide)
  rw [Nat.pow_eq]
  omega

omit [RealScalar R] [Amplitude R K] in
theorem size_foldl_setIfInBounds {β : Type} (l : List ℕ) (step : Array K × β → ℕ → Array K × β)
    (keeps : ∀ acc k, (step acc k).1.size = acc.1.size) (init : Array K × β) :
    (l.foldl step init).1.size = init.1.size := by
  induction l generalizing init with
  | nil => rfl
  | cons k l ih => rw [List.foldl_cons, ih, keeps]

theorem size_randomFill (first last : ℤ) (g : Random.Twister) (a : Array K) :
    (randomFill first last g a).size = a.size := by
  unfold randomFill
  refine size_foldl_setIfInBounds _ _ (fun acc k => ?_) _
  split <;> simp

omit [RealScalar R] [Amplitude R K] in
theorem size_fillUntilFault (value : ℕ → Except Fault K) (a : Array K) :
    (fillUntilFault value a).1.size = a.size := by
  unfold fillUntilFault
  refine size_foldl_setIfInBounds _ _ (fun acc k => ?_) _
  split
  · split <;> simp
  · rfl

@[simp] theorem size_normalize (a : Array K) : (normalize a).size = a.size := by
  simp [normalize]

omit [RealScalar R] in
theorem nonzeroEntries_ok {m : ℕ} {b : Array K} (enough : 2 ^ m ≤ b.size) :
    ∃ l, nonzeroEntries m b = .ok l := by
  have reads : ∀ js : List ℕ, (∀ j ∈ js, j < b.size) → ∃ l, js.filterMapM (fun j => do
      let x ← read b j
      pure (if Amplitude.isZero x then none else some (j, x))) = .ok l := by
    intro js inside
    induction js with
    | nil => exact ⟨[], rfl⟩
    | cons j js ih =>
      obtain ⟨l, hl⟩ := ih fun i hi => inside i (List.mem_cons_of_mem j hi)
      rw [List.filterMapM_cons, read_of_lt (inside j List.mem_cons_self)]
      simp only [ok_bind, pure_bind]
      split
      · exact ⟨l, hl⟩
      · exact ⟨_, by rw [hl]; rfl⟩
  exact reads _ fun j hj => by
    rw [List.mem_range, Nat.pow_eq] at hj
    omega

omit [RealScalar R] in
theorem nonzeroEntries_error {m : ℕ} {b : Array K} {f : Fault} (h : nonzeroEntries m b = .error f) :
    b.size < 2 ^ m := by
  by_contra enough
  obtain ⟨l, ok⟩ := nonzeroEntries_ok (not_lt.mp enough)
  rw [ok] at h
  cases h

theorem prepare_ground_ok (g : Random.Twister) {s₁ : Session R K} (ground : s₁.start = .ground)
    (small : s₁.size < 59) : ∃ s₀, (prepare g).run s₁ = .ok () s₀ := by
  -- every fault the preparation can raise is ruled out: the size prints, the register is
  -- allocated, and the ground state lists its amplitudes
  obtain ⟨_, s₀, prepared, -⟩ := @exists_run_ok _ _ _ (prepare g) (fun s => s = s₁)
    (fun _ _ => True)
    (by
      mvcgen -trivial [prepare, checkPrintable, emit, Script.ofExcept, setState, fail] with
        (simp only [ExceptConds.false] at *
         grind [registerSize_small, allocatable_printable, Int.natAbs_natCast,
           → nonzeroEntries_error, → allocated_nonempty, Array.size_setIfInBounds, size_zeros]))
    s₁ rfl
  exact ⟨s₀, prepared⟩

end Script

end Qubits
