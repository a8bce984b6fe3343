import Qubits.Proofs.Shapes

/-!
# Outcomes of the measured qubits

The measurement report groups the basis states of the register by the values of the measured
qubits. The outcome of basis state `i` is the binary number whose digits, least significant
first, are the bits of `i` at the measured qubits in increasing order (`outcomeOf_eq`). With `k`
measured qubits every outcome is below `2 ^ k`, each is the outcome of exactly `2 ^ (n - k)` of
the `2 ^ n` basis states (`card_outcomeValue`), and the label printed for it lists the values of
the measured qubits in their order (`toList_label_outcomeValue`). Over exact arithmetic the
probability of an outcome is the sum of `|x|²` over its basis states (`outcomeProbabilities_eq`),
so the probabilities add up to the squared norm of the state, and an amplitude is divided by the
root of its outcome's probability only where that probability is positive
(`outcomeTerms_guarded`).
-/

namespace Qubits.Script

open Finset StateVector Bits

/-! ## The outcome of a basis state -/

/-- The outcome of basis state `i` when the qubits `measuredQubits flags n` are measured: their
bits in `i`, as the digits of a binary number, least significant first. -/
def outcomeValue (flags : Array Bool) (n i : ℕ) : ℕ :=
  Nat.ofDigits 2 ((measuredQubits flags n).map fun j => (i.testBit j).toNat)

theorem measuredQubits_succ (flags : Array Bool) (n : ℕ) :
    measuredQubits flags (n + 1) =
      measuredQubits flags n ++ if flags.getD n false then [n] else [] := by
  unfold measuredQubits
  rw [List.range_succ, List.filter_append, List.filter_singleton]
  cases flags.getD n false <;> rfl

theorem length_measuredQubits_le (flags : Array Bool) (n : ℕ) :
    (measuredQubits flags n).length ≤ n :=
  (List.length_filter_le _ _).trans (List.length_range).le

theorem length_measuredQubits (flags : Array Bool) :
    (measuredQubits flags flags.size).length = flags.countP id := by
  have entries : (List.range flags.size).map (fun j => flags.getD j false) = flags.toList := by
    apply List.ext_getElem (by simp)
    intro j inside _
    have hj : j < flags.size := by simpa using inside
    simp [Array.getD, hj]
  rw [measuredQubits, ← List.countP_eq_length_filter, ← Array.countP_toList, ← entries,
    List.countP_map]
  rfl

theorem outcomeValue_succ (flags : Array Bool) (n i : ℕ) :
    outcomeValue flags (n + 1) i = outcomeValue flags n i +
      if flags.getD n false then 2 ^ (measuredQubits flags n).length * (i.testBit n).toNat
      else 0 := by
  unfold outcomeValue
  rw [measuredQubits_succ, List.map_append, Nat.ofDigits_append, List.length_map]
  split <;> simp

theorem outcomeValue_lt (flags : Array Bool) (n i : ℕ) :
    outcomeValue flags n i < 2 ^ (measuredQubits flags n).length := by
  have bits : ∀ x ∈ (measuredQubits flags n).map (fun j => (i.testBit j).toNat), x < 2 := by
    intro x mem
    obtain ⟨j, -, rfl⟩ := List.mem_map.mp mem
    exact Bool.toNat_lt _
  simpa [outcomeValue] using Nat.ofDigits_lt_base_pow_length (by norm_num) bits

theorem outcomeOf_eq {flags : Array Bool} {n : ℕ} (hn : n ≤ flags.size) (i : ℕ) :
    outcomeOf flags n i = .ok (outcomeValue flags n i) := by
  -- after the qubits below `m` the fold holds their outcome and the number of them measured
  have packs : ∀ m ≤ flags.size, (List.range m).foldlM (fun (acc : ℕ × ℕ) j => do
      let measured ← read flags j
      pure (if measured then
        (acc.1 + (if i.testBit j then Nat.pow 2 acc.2 else 0), acc.2 + 1) else acc)) (0, 0) =
      .ok (outcomeValue flags m i, (measuredQubits flags m).length) := by
    intro m hm
    induction m with
    | zero => rfl
    | succ m ih =>
      have inside : m < flags.size := by omega
      have entry : flags.getD m false = flags[m] := by simp [Array.getD, inside]
      rw [List.range_succ, List.foldlM_append, ih (by omega), ok_bind, List.foldlM_cons,
        read_of_lt inside, ok_bind, outcomeValue_succ, measuredQubits_succ, entry]
      cases flags[m] <;> cases i.testBit m <;> simp [Nat.pow_eq]
  unfold outcomeOf
  rw [packs n hn]
  rfl

/-! ## The label of an outcome -/

theorem testBit_ofDigits_toNat (bs : List Bool) (r : ℕ) :
    (Nat.ofDigits 2 (bs.map Bool.toNat)).testBit r = bs.getD r false := by
  induction bs generalizing r with
  | nil => simp
  | cons b bs ih =>
    rw [List.map_cons, Nat.ofDigits_cons]
    cases r with
    | zero => cases b <;> simp [Nat.testBit_zero, Nat.add_mul_mod_self_left]
    | succ r =>
      have half : (b.toNat + 2 * Nat.ofDigits 2 (bs.map Bool.toNat)) / 2 =
          Nat.ofDigits 2 (bs.map Bool.toNat) := by
        cases b
        · simp
        · simp
          omega
      rw [Nat.testBit_add_one, half, ih]
      rfl

theorem map_range_getD {α β : Type} (l : List α) (d : α) (f : α → β) :
    (List.range l.length).map (fun r => f (l.getD r d)) = l.map f := by
  apply List.ext_getElem (by simp)
  intro r h₁ h₂
  simp only [List.getElem_map, List.getElem_range]
  rw [List.getD_eq_getElem _ _ (by simpa using h₂)]

theorem toList_label_outcomeValue {flags : Array Bool} {n : ℕ} (i : ℕ)
    (measured : 0 < (measuredQubits flags n).length) :
    (label (measuredQubits flags n).length (outcomeValue flags n i)).toList =
      (measuredQubits flags n).map fun j => bitChar (i.testBit j) := by
  have digits : outcomeValue flags n i =
      Nat.ofDigits 2 (((measuredQubits flags n).map i.testBit).map Bool.toNat) := by
    rw [outcomeValue, List.map_map]
    rfl
  rw [toList_label_of_lt (outcomeValue_lt flags n i), max_eq_left measured]
  simp only [digits, testBit_ofDigits_toNat]
  rw [← List.length_map (f := i.testBit), map_range_getD, List.map_map]
  rfl

/-! ## How many basis states have each outcome -/

theorem outcomeValue_two_pow_add (flags : Array Bool) (n i : ℕ) :
    outcomeValue flags n (2 ^ n + i) = outcomeValue flags n i := by
  unfold outcomeValue
  congr 1
  apply List.map_congr_left
  intro j mem
  have below : j < n := List.mem_range.mp (List.mem_filter.mp mem).1
  rw [Nat.testBit_two_pow_add_gt below]

theorem outcomeValue_succ_low (flags : Array Bool) {n i : ℕ} (hi : i < 2 ^ n) :
    outcomeValue flags (n + 1) i = outcomeValue flags n i := by
  rw [outcomeValue_succ, Nat.testBit_lt_two_pow hi]
  simp

theorem outcomeValue_succ_high (flags : Array Bool) {n i : ℕ} (hi : i < 2 ^ n) :
    outcomeValue flags (n + 1) (2 ^ n + i) = outcomeValue flags n i +
      if flags.getD n false then 2 ^ (measuredQubits flags n).length else 0 := by
  rw [outcomeValue_succ, outcomeValue_two_pow_add, Nat.testBit_two_pow_add_eq,
    Nat.testBit_lt_two_pow hi]
  simp

theorem card_outcomeValue (flags : Array Bool) (n : ℕ) {b : ℕ}
    (hb : b < 2 ^ (measuredQubits flags n).length) :
    ((range (2 ^ n)).filter fun i => outcomeValue flags n i = b).card =
      2 ^ (n - (measuredQubits flags n).length) := by
  induction n generalizing b with
  | zero =>
    obtain rfl : b = 0 := by simpa [measuredQubits] using hb
    rfl
  | succ n ih =>
    have fits := length_measuredQubits_le flags n
    -- the basis states of `n + 1` qubits: those of `n` qubits, and the same with qubit `n` set
    have halves : ((range (2 ^ (n + 1))).filter fun i => outcomeValue flags (n + 1) i = b).card =
        ∑ i ∈ range (2 ^ n), (if outcomeValue flags n i = b then 1 else 0) +
        ∑ i ∈ range (2 ^ n), (if outcomeValue flags n i +
          (if flags.getD n false then 2 ^ (measuredQubits flags n).length else 0) = b then 1
          else 0) := by
      rw [card_filter, pow_succ, mul_two, sum_range_add]
      congr 1
      · exact sum_congr rfl fun i mem => by rw [outcomeValue_succ_low _ (mem_range.mp mem)]
      · exact sum_congr rfl fun i mem => by rw [outcomeValue_succ_high _ (mem_range.mp mem)]
    have count : ∀ v < 2 ^ (measuredQubits flags n).length,
        ∑ i ∈ range (2 ^ n), (if outcomeValue flags n i = v then 1 else 0) =
          2 ^ (n - (measuredQubits flags n).length) := fun v hv => by
      rw [← card_filter]
      exact ih hv
    rw [halves]
    cases measured : flags.getD n false
    · -- qubit `n` is not measured: both halves have the outcome as often
      have same : (measuredQubits flags (n + 1)).length = (measuredQubits flags n).length := by
        simp [measuredQubits_succ, measured]
      rw [same] at hb ⊢
      simp only [Bool.false_eq_true, if_false, Nat.add_zero]
      rw [count b hb, ← two_mul, ← pow_succ', show n - (measuredQubits flags n).length + 1 =
        n + 1 - (measuredQubits flags n).length by omega]
    · -- qubit `n` is measured: it is the top bit of the outcome
      have more : (measuredQubits flags (n + 1)).length = (measuredQubits flags n).length + 1 := by
        simp [measuredQubits_succ, measured]
      rw [more] at hb ⊢
      simp only [if_true, show n + 1 - ((measuredQubits flags n).length + 1) =
        n - (measuredQubits flags n).length by omega]
      by_cases low : b < 2 ^ (measuredQubits flags n).length
      · have none : ∀ i, outcomeValue flags n i + 2 ^ (measuredQubits flags n).length ≠ b :=
          fun i => by omega
        simp only [none, if_false, sum_const_zero, Nat.add_zero]
        exact count b low
      · have none : ∀ i, outcomeValue flags n i ≠ b := fun i =>
          ne_of_lt (lt_of_lt_of_le (outcomeValue_lt flags n i) (not_lt.mp low))
        have shifted : ∀ i, (outcomeValue flags n i + 2 ^ (measuredQubits flags n).length = b) ↔
            outcomeValue flags n i = b - 2 ^ (measuredQubits flags n).length := fun i => by omega
        simp only [none, if_false, sum_const_zero, Nat.zero_add, shifted]
        exact count _ (by rw [pow_succ] at hb; omega)

/-! ## The probability of each outcome -/

theorem foldlM_range_ok {ε α : Type} {P : ℕ → α → Prop} {f : α → ℕ → Except ε α} {N : ℕ}
    (step : ∀ m < N, ∀ a, P m a → ∃ a', f a m = .ok a' ∧ P (m + 1) a') {a : α} (ha : P 0 a) :
    ∃ a', (List.range N).foldlM f a = .ok a' ∧ P N a' := by
  induction N with
  | zero => exact ⟨a, rfl, ha⟩
  | succ N ih =>
    obtain ⟨b, fold, hb⟩ := ih fun m hm => step m (by omega)
    obtain ⟨b', next, hb'⟩ := step N (by omega) b hb
    refine ⟨b', ?_, hb'⟩
    rw [List.range_succ, List.foldlM_append, fold, ok_bind, List.foldlM_cons, next, ok_bind]
    rfl

theorem getD_setIfInBounds {α : Type} {a : Array α} {i : ℕ} (hi : i < a.size) (x : α) (j : ℕ)
    (d : α) : (a.setIfInBounds i x).getD j d = if i = j then x else a.getD j d := by
  rw [Array.getD_eq_getD_getElem?, Array.getElem?_setIfInBounds, Array.getD_eq_getD_getElem?]
  split
  · simp
  · rfl

@[simp] theorem listedModulus_eq : (listedModulus : ℝ) = 1 / 10000 := by
  simp [listedModulus]

section Exact

variable {n : ℕ} {c : Array ℂ} {flags : Array Bool}

theorem outcomeProbabilities_eq (hc : c.size = 2 ^ n) (hf : flags.size = n) :
    ∃ ps, (outcomeProbabilities n c flags : Except Fault (Array ℝ)) = .ok ps ∧
      ps.size = 2 ^ flags.countP id ∧ ∀ b < 2 ^ flags.countP id,
        ps.getD b 0 = ∑ i ∈ (range (2 ^ n)).filter (fun i => outcomeValue flags n i = b),
          ‖amp c i‖ ^ 2 := by
  have count : (measuredQubits flags n).length = flags.countP id := hf ▸ length_measuredQubits flags
  unfold outcomeProbabilities
  simp only [Nat.pow_eq]
  -- after the first `m` basis states each bucket holds the probability of those with its outcome
  refine foldlM_range_ok (P := fun m (ps : Array ℝ) => ps.size = 2 ^ flags.countP id ∧
      ∀ b < 2 ^ flags.countP id, ps.getD b 0 =
        ∑ i ∈ (range m).filter (fun i => outcomeValue flags n i = b), ‖amp c i‖ ^ 2)
    (fun m hm ps ⟨size, sums⟩ => ?_) ⟨by simp, fun b hb => by simp [Array.getD, hb]⟩
  have bucket : outcomeValue flags n m < ps.size := by
    rw [size, ← count]
    exact outcomeValue_lt flags n m
  refine ⟨ps.setIfInBounds (outcomeValue flags n m) (ps.getD (outcomeValue flags n m) 0 +
    ‖amp c m‖ ^ 2), ?_, by rw [Array.size_setIfInBounds, size], fun b hb => ?_⟩
  · rw [outcomeOf_eq (by omega) m, ok_bind, read_eq (by omega), ok_bind, read_of_lt bucket, ok_bind]
    simp [Array.getD, bucket]
  · rw [getD_setIfInBounds bucket, range_add_one, filter_insert]
    by_cases same : outcomeValue flags n m = b
    · rw [if_pos same, if_pos same, sum_insert (by simp), ← same, sums _ (same ▸ hb), add_comm]
    · rw [if_neg same, if_neg same, sums b hb]

theorem sum_outcomeProbabilities (hf : flags.size = n) {ps : Array ℝ}
    (sums : ∀ b < 2 ^ flags.countP id, ps.getD b 0 =
      ∑ i ∈ (range (2 ^ n)).filter (fun i => outcomeValue flags n i = b), ‖amp c i‖ ^ 2) :
    ∑ b ∈ range (2 ^ flags.countP id), ps.getD b 0 = ∑ i ∈ range (2 ^ n), ‖amp c i‖ ^ 2 := by
  have count : (measuredQubits flags n).length = flags.countP id := hf ▸ length_measuredQubits flags
  rw [sum_congr rfl fun b hb => sums b (mem_range.mp hb)]
  exact sum_fiberwise_of_maps_to (fun i _ => mem_range.mpr (count ▸ outcomeValue_lt flags n i)) _

theorem outcomeTerms_guarded (hc : c.size = 2 ^ n) (hf : flags.size = n) {ps : Array ℝ}
    (hp : ps.size = 2 ^ flags.countP id) :
    ∃ ts, outcomeTerms n c flags ps = .ok ts ∧ ∀ b, ∀ t ∈ ts.getD b [], ∃ i < 2 ^ n,
      outcomeValue flags n i = b ∧ 1 / 10000 < ‖amp c i‖ ∧
        t = (amp c i / (Real.sqrt (ps.getD b 0) : ℂ), label n i) := by
  have count : (measuredQubits flags n).length = flags.countP id := hf ▸ length_measuredQubits flags
  suffices listing : ∃ ts, outcomeTerms n c flags ps = .ok ts ∧ ts.size = 2 ^ flags.countP id ∧
      ∀ b, ∀ t ∈ ts.getD b [], ∃ i < 2 ^ n, outcomeValue flags n i = b ∧ 1 / 10000 < ‖amp c i‖ ∧
        t = (amp c i / (Real.sqrt (ps.getD b 0) : ℂ), label n i) by
    obtain ⟨ts, terms, -, listed⟩ := listing
    exact ⟨ts, terms, listed⟩
  unfold outcomeTerms
  -- each step lists at most the amplitude of its basis state, in the bucket of its outcome
  refine foldlM_ok (P := fun (ts : Array (List (ℂ × String))) =>
      ts.size = 2 ^ flags.countP id ∧ ∀ b, ∀ t ∈ ts.getD b [], ∃ i < 2 ^ n,
        outcomeValue flags n i = b ∧ 1 / 10000 < ‖amp c i‖ ∧
          t = (amp c i / (Real.sqrt (ps.getD b 0) : ℂ), label n i))
    (fun ts i mem ⟨size, listed⟩ => ?_) ⟨by simp [Nat.pow_eq], fun b t mem => by
      simp [Array.getD] at mem⟩
  have hi : i < 2 ^ n := by simpa [Nat.pow_eq] using mem
  have bucket : outcomeValue flags n i < 2 ^ flags.countP id := count ▸ outcomeValue_lt flags n i
  rw [outcomeOf_eq (by omega) i, ok_bind, read_eq (by omega), ok_bind]
  by_cases above : 1 / 10000 < ‖amp c i‖
  · -- the amplitude is listed with its outcome, after those listed before
    have lt : RealScalar.lt listedModulus (Amplitude.abs (amp c i)) = true := by simpa using above
    rw [if_pos lt, read_of_lt (by omega), ok_bind, read_of_lt (by omega), ok_bind]
    refine ⟨_, rfl, by simp [size], fun b t mem => ?_⟩
    rw [getD_setIfInBounds (by omega)] at mem
    by_cases same : outcomeValue flags n i = b
    · rw [if_pos same] at mem
      rcases List.mem_append.mp mem with earlier | last
      · subst same
        exact listed _ t (by simpa [Array.getD, size ▸ bucket] using earlier)
      · refine ⟨i, hi, same, above, ?_⟩
        subst same
        rw [List.mem_singleton.mp last]
        simp [Array.getD, hp ▸ bucket]
    · rw [if_neg same] at mem
      exact listed b t mem
  · have notLt : RealScalar.lt listedModulus (Amplitude.abs (amp c i)) = false := by simpa using above
    rw [if_neg (Bool.eq_false_iff.mp notLt)]
    exact ⟨ts, rfl, size, listed⟩

end Exact

/-! ## The measurement report -/

/-- What the measurement report reads off a register of `n` qubits with amplitudes `c` and
measured flags `flags`, over exact arithmetic. The outcome of each basis state packs its bits at
the measured qubits, the lowest qubit in the lowest bit, and is below `2 ^ k` for the `k`
measured qubits; the label of the outcome lists those bits in qubit order. Each outcome is that
of `2 ^ (n - k)` basis states, its probability is the sum of `|x|²` over them, and the
probabilities add up to the squared norm of the state. An amplitude is divided by the root of its
outcome's probability only where that probability is positive. -/
theorem marginalReport_outcomes {n : ℕ} {c : Array ℂ} {flags : Array Bool}
    (hc : c.size = 2 ^ n) (hf : flags.size = n) :
    (measuredQubits flags n).length = flags.countP id ∧
    (∀ i < 2 ^ n, outcomeOf flags n i = .ok (outcomeValue flags n i) ∧
      outcomeValue flags n i < 2 ^ flags.countP id ∧
      (0 < flags.countP id → (label (flags.countP id) (outcomeValue flags n i)).toList =
        (measuredQubits flags n).map fun j => bitChar (i.testBit j))) ∧
    (∀ b < 2 ^ flags.countP id,
      ((range (2 ^ n)).filter fun i => outcomeValue flags n i = b).card =
        2 ^ (n - flags.countP id)) ∧
    ∃ ps, outcomeProbabilities n c flags = .ok ps ∧ ps.size = 2 ^ flags.countP id ∧
      (∀ b < 2 ^ flags.countP id, ps.getD b 0 =
        ∑ i ∈ (range (2 ^ n)).filter (fun i => outcomeValue flags n i = b), ‖amp c i‖ ^ 2) ∧
      ∑ b ∈ range (2 ^ flags.countP id), ps.getD b 0 = ∑ i ∈ range (2 ^ n), ‖amp c i‖ ^ 2 ∧
      ∃ ts, outcomeTerms n c flags ps = .ok ts ∧ ∀ b, ∀ t ∈ ts.getD b [], ∃ i < 2 ^ n,
        outcomeValue flags n i = b ∧ 0 < ps.getD b 0 ∧
          t = (amp c i / (Real.sqrt (ps.getD b 0) : ℂ), label n i) := by
  have count : (measuredQubits flags n).length = flags.countP id := hf ▸ length_measuredQubits flags
  obtain ⟨ps, probs, size, sums⟩ := outcomeProbabilities_eq hc hf
  obtain ⟨ts, terms, listed⟩ := outcomeTerms_guarded hc hf size
  have packed : ∀ i < 2 ^ n, outcomeOf flags n i = .ok (outcomeValue flags n i) ∧
      outcomeValue flags n i < 2 ^ flags.countP id ∧
      (0 < flags.countP id → (label (flags.countP id) (outcomeValue flags n i)).toList =
        (measuredQubits flags n).map fun j => bitChar (i.testBit j)) := by
    intro i _
    rw [← count]
    exact ⟨outcomeOf_eq (by omega) i, outcomeValue_lt flags n i, toList_label_outcomeValue i⟩
  have fibres : ∀ b < 2 ^ flags.countP id,
      ((range (2 ^ n)).filter fun i => outcomeValue flags n i = b).card =
        2 ^ (n - flags.countP id) := by
    intro b hb
    rw [← count] at hb ⊢
    exact card_outcomeValue flags n hb
  refine ⟨count, packed, fibres, ps, probs, size, sums, sum_outcomeProbabilities hf sums, ts, terms,
    fun b t mem => ?_⟩
  obtain ⟨i, hi, outcome, above, rfl⟩ := listed b t mem
  refine ⟨i, hi, outcome, ?_, rfl⟩
  -- the probability of the outcome is at least that of one of its basis states
  have inFibre : i ∈ (range (2 ^ n)).filter fun i => outcomeValue flags n i = b := by
    simp [hi, outcome]
  have positive : 0 < ‖amp c i‖ ^ 2 := pow_pos (lt_trans (by norm_num) above) 2
  calc 0 < ‖amp c i‖ ^ 2 := positive
    _ ≤ ∑ j ∈ (range (2 ^ n)).filter (fun j => outcomeValue flags n j = b), ‖amp c j‖ ^ 2 :=
      single_le_sum (fun j _ => sq_nonneg ‖amp c j‖) inFibre
    _ = ps.getD b 0 := (sums b (outcome ▸ (packed i hi).2.1)).symm

theorem marginalReport_outcomes_second_qubit :
    (#[0, 1, 0, 0] : Array ℂ).size = 2 ^ 2 ∧ (#[false, true] : Array Bool).size = 2 ∧
    (measuredQubits #[false, true] 2).length = (#[false, true] : Array Bool).countP id ∧
    (∀ i < 2 ^ 2, outcomeOf #[false, true] 2 i = .ok (outcomeValue #[false, true] 2 i) ∧
      outcomeValue #[false, true] 2 i < 2 ^ (#[false, true] : Array Bool).countP id ∧
      (0 < (#[false, true] : Array Bool).countP id →
        (label ((#[false, true] : Array Bool).countP id) (outcomeValue #[false, true] 2 i)).toList =
          (measuredQubits #[false, true] 2).map fun j => bitChar (i.testBit j))) ∧
    (∀ b < 2 ^ (#[false, true] : Array Bool).countP id,
      ((range (2 ^ 2)).filter fun i => outcomeValue #[false, true] 2 i = b).card =
        2 ^ (2 - (#[false, true] : Array Bool).countP id)) ∧
    ∃ ps, outcomeProbabilities 2 (#[0, 1, 0, 0] : Array ℂ) #[false, true] = .ok ps ∧
      ps.size = 2 ^ (#[false, true] : Array Bool).countP id ∧
      (∀ b < 2 ^ (#[false, true] : Array Bool).countP id, ps.getD b 0 =
        ∑ i ∈ (range (2 ^ 2)).filter (fun i => outcomeValue #[false, true] 2 i = b),
          ‖amp #[0, 1, 0, 0] i‖ ^ 2) ∧
      ∑ b ∈ range (2 ^ (#[false, true] : Array Bool).countP id), ps.getD b 0 =
        ∑ i ∈ range (2 ^ 2), ‖amp #[0, 1, 0, 0] i‖ ^ 2 ∧
      ∃ ts, outcomeTerms 2 (#[0, 1, 0, 0] : Array ℂ) #[false, true] ps = .ok ts ∧
        ∀ b, ∀ t ∈ ts.getD b [], ∃ i < 2 ^ 2, outcomeValue #[false, true] 2 i = b ∧
          0 < ps.getD b 0 ∧ t = (amp #[0, 1, 0, 0] i / (Real.sqrt (ps.getD b 0) : ℂ), label 2 i) :=
  ⟨rfl, rfl, marginalReport_outcomes rfl rfl⟩

end Qubits.Script
