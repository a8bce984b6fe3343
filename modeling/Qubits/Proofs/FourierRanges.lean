import Qubits.Proofs.FourierRoundTrip

/-!
# The ranges of the Fourier transform

The kernel of the Fourier transform on the qubits `i … f` splits each basis index into the value
`j3` of the qubits above `f`, the block value `j2` and the value `j1` of the qubits below `i`,
and visits the triples in three nested loops (`blockTriples`). For a block `i ≤ f` of the
register, the index `(j3 <<< (f+1)) + (j2 <<< i) + j1` is a bijection from the triples onto the
basis indices (`blockIndex_bijOn`), and the loops meet the indices in increasing order, each once
(`map_blockTriples`). So the kernel reads every amplitude once, writes only inside the vector and
returns a vector of the register's size (`fourierBlock_visits_every_index_once`).

A line over a downward range, `QFT q[i:f];` with `f < i`, is no transform of the qubits `f … i`.
One step down, `i = f + 1`, the block holds no qubit: its `2^(f - i + 1) = 1` value is kept, and
the line leaves the state as it was. Further down the block's size is no whole number, and the
line stops with that fault (`perform_fourier_downward`).
-/

namespace Qubits

open Finset StateVector

theorem range_mul_flatMap (m k : ℕ) :
    List.range (m * k) = (List.range m).flatMap fun q => (List.range k).map fun r => q * k + r := by
  induction m with
  | zero => simp
  | succ m ih => rw [Nat.succ_mul, List.range_add, ih, List.range_succ, List.flatMap_append,
      List.flatMap_singleton]

namespace Gate

variable {n low high : ℕ}

theorem shiftLeft_blockIndex (j3 k j1 : ℕ) :
    (j3 <<< high) + (k <<< low) + j1 = blockIndex low high j3 k j1 := by
  simp only [Nat.shiftLeft_eq, blockIndex]

def blockBox (n low high : ℕ) : Set (ℕ × ℕ × ℕ) :=
  Set.Iio (2 ^ (n - high)) ×ˢ Set.Iio (2 ^ (high - low)) ×ˢ Set.Iio (2 ^ low)

theorem blockIndex_mapsTo (hlow : low ≤ high) (hhigh : high ≤ n) :
    Set.MapsTo (fun t => blockIndex low high t.1 t.2.1 t.2.2) (blockBox n low high)
      (Set.Iio (2 ^ n)) := by
  rintro ⟨j3, k, j1⟩ ⟨hj3, hk, hj1⟩
  exact blockIndex_lt hlow hhigh hj3 hk hj1

theorem blockParts_blockIndex (hlow : low ≤ high) {j3 k j1 : ℕ} (hk : k < 2 ^ (high - low))
    (hj1 : j1 < 2 ^ low) :
    (blockIndex low high j3 k j1 / 2 ^ high, blockValue low high (blockIndex low high j3 k j1),
      blockIndex low high j3 k j1 % 2 ^ low) = (j3, k, j1) := by
  rw [blockIndex_div hlow hk hj1, blockValue_blockIndex hlow hk hj1, blockIndex_mod_low hlow hj1]

theorem blockIndex_injOn (hlow : low ≤ high) :
    Set.InjOn (fun t => blockIndex low high t.1 t.2.1 t.2.2) (blockBox n low high) := by
  rintro ⟨j3, k, j1⟩ ⟨-, hk, hj1⟩ ⟨j3', k', j1'⟩ ⟨-, hk', hj1'⟩ same
  simp only [Set.mem_Iio] at hk hj1 hk' hj1' same
  rw [← blockParts_blockIndex hlow hk hj1, ← blockParts_blockIndex hlow hk' hj1', same]

theorem blockIndex_surjOn (hlow : low ≤ high) (hhigh : high ≤ n) :
    Set.SurjOn (fun t => blockIndex low high t.1 t.2.1 t.2.2) (blockBox n low high)
      (Set.Iio (2 ^ n)) := by
  intro i hi
  -- an index is its outer parts around its own block value
  exact ⟨(i / 2 ^ high, blockValue low high i, i % 2 ^ low),
    ⟨div_two_pow_lt hhigh hi, blockValue_lt hlow i, Nat.mod_lt _ (by positivity)⟩,
    withBlock_blockValue hlow i⟩

theorem blockIndex_bijOn (hlow : low ≤ high) (hhigh : high ≤ n) :
    Set.BijOn (fun t => blockIndex low high t.1 t.2.1 t.2.2) (blockBox n low high)
      (Set.Iio (2 ^ n)) :=
  ⟨blockIndex_mapsTo hlow hhigh, blockIndex_injOn hlow, blockIndex_surjOn hlow hhigh⟩

theorem map_blockTriples (hlow : low ≤ high) (hhigh : high ≤ n) :
    (blockTriples n low high).map (fun t => blockIndex low high t.1 t.2.1 t.2.2) =
      List.range (2 ^ n) := by
  -- the block and the part below it count through `2^high`, the part above through the rest
  have inner : ∀ j3, ((List.range (2 ^ (high - low))).flatMap fun k =>
      (List.range (2 ^ low)).map fun j1 => blockIndex low high j3 k j1) =
        (List.range (2 ^ high)).map fun r => j3 * 2 ^ high + r := by
    intro j3
    have block : List.range (2 ^ high) = List.range (2 ^ (high - low) * 2 ^ low) := by
      rw [two_pow_block hlow]
    rw [block, range_mul_flatMap, List.map_flatMap]
    simp only [List.map_map, Function.comp_def, blockIndex, add_assoc]
  rw [two_pow_block hhigh, range_mul_flatMap, blockTriples, List.map_flatMap]
  simp only [List.map_flatMap, List.map_map, Function.comp_def]
  exact List.flatMap_congr fun j3 _ => inner j3

section Kernel

variable {R K : Type} [RealScalar R] [Amplitude R K]

/-- The index arithmetic of the Fourier kernel on a block `i … f` of an `n`-qubit register. The
index `(j3 <<< (f+1)) + (j2 <<< i) + j1` is a bijection from the triples below `2^(n-f-1)`,
`2^(f-i+1)` and `2^i` onto the `2^n` basis indices, and so lies below `2^n` with any block value
`jj` in place of `j2`, as every index the kernel writes does. The kernel folds its visits over the
triples in the order of its three loops, which meets the indices `0, 1, …, 2^n - 1` in turn: it
reads every amplitude once. Its reads and writes stay inside the vector, so on `2^n` amplitudes it
returns `2^n` amplitudes, whatever the arithmetic. -/
theorem fourierBlock_visits_every_index_once {i f : ℕ} (hif : i ≤ f) (hf : f < n) :
    Set.BijOn (fun t : ℕ × ℕ × ℕ => (t.1 <<< (f + 1)) + (t.2.1 <<< i) + t.2.2)
        (Set.Iio (2 ^ (n - f - 1)) ×ˢ Set.Iio (2 ^ (f - i + 1)) ×ˢ Set.Iio (2 ^ i))
        (Set.Iio (2 ^ n)) ∧
      (∀ j3 < 2 ^ (n - f - 1), ∀ jj < 2 ^ (f - i + 1), ∀ j1 < 2 ^ i,
        (j3 <<< (f + 1)) + (jj <<< i) + j1 < 2 ^ n) ∧
      (blockTriples n i (f + 1)).map (fun t => (t.1 <<< (f + 1)) + (t.2.1 <<< i) + t.2.2) =
        List.range (2 ^ n) ∧
      ∀ (dir : R) (a : Array K),
        fourierBlock n i f dir a =
          (blockTriples n i (f + 1)).foldlM (fourierVisit dir i (f + 1) a) (zeros (2 ^ n)) ∧
        (a.size = 2 ^ n → Returns (2 ^ n) (fourierBlock n i f dir a)) := by
  have hlow : i ≤ f + 1 := by omega
  have block : ¬((n : ℤ) - f - 1 < 0 ∨ (f : ℤ) - i + 1 < 0 ∨ (i : ℤ) < 0) := by omega
  -- the exponents of the loops are those of the block `i … f + 1 - 1`
  have box : Set.Iio (2 ^ (n - f - 1)) ×ˢ Set.Iio (2 ^ (f - i + 1)) ×ˢ Set.Iio (2 ^ i) =
      blockBox n i (f + 1) := by
    rw [blockBox, Nat.sub_sub, Nat.sub_add_comm hif]
  have shifted : (fun t : ℕ × ℕ × ℕ => (t.1 <<< (f + 1)) + (t.2.1 <<< i) + t.2.2) =
      fun t => blockIndex i (f + 1) t.1 t.2.1 t.2.2 :=
    funext fun t => shiftLeft_blockIndex t.1 t.2.1 t.2.2
  have bijective := blockIndex_bijOn hlow hf
  rw [← box, ← shifted] at bijective
  refine ⟨bijective, fun j3 hj3 jj hjj j1 hj1 => ?_, ?_, fun dir a => ⟨?_, fun ha => ?_⟩⟩
  · exact bijective.mapsTo (Set.mk_mem_prod hj3 (Set.mk_mem_prod hjj hj1))
  · rw [shifted]
    exact map_blockTriples hlow hf
  · have top : ((f : ℤ) + 1).toNat = f + 1 := by omega
    rw [fourierBlock_eq_foldlM block, Int.toNat_natCast, top]
  · exact fourierBlock_returns_of_block ha block

theorem fourierBlock_visits_every_index_once_middle_qubit :
    1 ≤ 1 ∧ 1 < 3 ∧
      (blockTriples 3 1 (1 + 1)).map (fun t => (t.1 <<< (1 + 1)) + (t.2.1 <<< 1) + t.2.2) =
        List.range (2 ^ 3) :=
  ⟨le_rfl, by norm_num,
    (fourierBlock_visits_every_index_once (R := Float) (K := DComplex) (n := 3) le_rfl
      (by norm_num)).2.2.1⟩

end Kernel

theorem blockFourier_empty (dir : ℝ) (low : ℕ) (g : ℕ → ℂ) : blockFourier dir low low g = g := by
  funext i
  have entry : fourierEntry dir 1 0 (blockValue low low i) = 1 := by simp [fourierEntry]
  have kept : withBlock low low i 0 = i := by simp [withBlock, blockIndex, Nat.div_add_mod']
  simp [blockFourier, entry, kept]

theorem fourierBlock_empty {low : ℕ} (hlow : low ≤ n) (dir : ℝ) {a : Array ℂ}
    (ha : a.size = 2 ^ n) : fourierBlock n low ((low : ℤ) - 1) dir a = .ok a := by
  rw [fourierBlock_eq dir le_rfl hlow ha, blockFourier_empty, tabulate_amp ha]

end Gate

namespace Script

open Std.Do Gate

set_option mvcgen.warning false

section Steps

variable {R K : Type} [RealScalar R] [Amplitude R K] {n : ℕ}

theorem fourierOnce_refused (word : String) (i f : ℤ) {a : Array K} {e : Fault}
    (kernel : fourierBlock n i f (RealScalar.ofInt (if word == "IQFT" then -1 else 1) : R) a =
      .error e) :
    ⦃fun s => ⌜Allocated n s ∧ s.state = some a⌝⦄ (fourierOnce word i f : Run R K Unit)
    ⦃post⟨fun _ _ => ⌜False⌝, fun e' _ => ⌜e' = e⌝⟩⦄ := by
  mvcgen [fourierOnce, emit, currentState, fourierStep, allocate, Script.ofExcept, fail] with
    grind [allocated_iff, registerSize_small]

theorem perform_fourier_refused (logarithm : Bool) {line : String} {o : Operands} {a : Array K}
    {e : Fault} (word : lineWord line = "QFT" ∨ lineWord line = "IQFT")
    (reads : operands line = .ok o)
    (kernel : fourierBlock n o.controlFrom o.controlTo
      (RealScalar.ofInt (if lineWord line == "IQFT" then -1 else 1) : R) a = .error e) :
    ⦃fun s => ⌜Allocated n s ∧ s.state = some a⌝⦄ (perform logarithm line : Run R K Unit)
    ⦃post⟨fun _ _ => ⌜False⌝, fun e' _ => ⌜e' = e⌝⟩⦄ := by
  have once := fourierOnce_refused (lineWord line) o.controlFrom o.controlTo kernel
  unfold perform operandsOf
  rw [reads]
  generalize lineWord line = w at word once
  -- once the word is fixed, the tests of the other command words are closed and decided
  rcases word with rfl | rfl <;> simp +decide only [ite_false, ite_true] <;>
    mvcgen -trivial [Script.ofExcept, once] with grind

theorem perform_fourier_error (logarithm : Bool) {line : String} {o : Operands} {a : Array K}
    {e : Fault} (word : lineWord line = "QFT" ∨ lineWord line = "IQFT")
    (reads : operands line = .ok o)
    (kernel : fourierBlock n o.controlFrom o.controlTo
      (RealScalar.ofInt (if lineWord line == "IQFT" then -1 else 1) : R) a = .error e)
    {s : Session R K} (ready : Allocated n s) (current : s.state = some a) :
    ∃ s', (perform logarithm line).run s = .error e s' := by
  have refused := @perform_fourier_refused R K _ _ n logarithm line o a e word reads kernel
  -- the line's program is only run here; naming it keeps it from being unfolded
  generalize (perform logarithm line : Run R K Unit) = x at refused ⊢
  obtain ⟨_, s', stops, rfl⟩ := exists_run_error refused ⟨ready, current⟩
  exact ⟨s', stops⟩

end Steps

variable {n : ℕ}

/-- A Fourier line over a downward range `i > f`, over exact arithmetic, never runs the transform
of the qubits `f … i`. One step down, `i = f + 1`, the kernel's block `i … f` holds no qubit, and
the line returns with the state it found; further down the block's size `2^(f - i + 1)` is no
whole number, and the line stops with that fault. -/
theorem perform_fourier_downward (logarithm : Bool) {word line : String} {i f : ℕ} (hfi : f < i)
    (hi : i ≤ n) (fourier : word = "QFT" ∨ word = "IQFT") (reads : ReadsRange word i f line)
    {s : Session ℝ ℂ} {a : Array ℂ} (ready : Allocated n s) (current : s.state = some a) :
    (i = f + 1 ∧ ∃ s', (perform logarithm line).run s = .ok () s' ∧ Allocated n s' ∧
        s'.state = some a) ∨
      (f + 1 < i ∧ ∃ s', (perform logarithm line).run s = .error .fractionalCount s') := by
  obtain ⟨named, o, ho, first, last⟩ := reads
  have word : lineWord line = "QFT" ∨ lineWord line = "IQFT" := by
    rw [named]
    exact fourier
  rcases Nat.lt_or_ge (f + 1) i with beyond | next
  · -- the block `i … f` has a negative number of qubits
    have kernel := fourierBlock_refused (n := n) (i := o.controlFrom) (f := o.controlTo)
      (by omega) (RealScalar.ofInt (if lineWord line == "IQFT" then -1 else 1) : ℝ) a
    exact .inr ⟨beyond, perform_fourier_error logarithm word ho kernel ready current⟩
  · -- one step down the block holds no qubit
    have step : i = f + 1 := by omega
    subst step
    obtain ⟨-, -, -, ⟨a', stated, size⟩, -⟩ := allocated_iff.mp ready
    rw [current, Option.some.injEq] at stated
    subst stated
    have kernel : fourierBlock n o.controlFrom o.controlTo
        (RealScalar.ofInt (if lineWord line == "IQFT" then -1 else 1) : ℝ) a = .ok a := by
      rw [first, last, natCast_last f]
      exact fourierBlock_empty hi _ size
    exact .inl ⟨rfl, perform_fourier_run logarithm word ho kernel size ready current⟩

theorem perform_fourier_downward_one_step :
    ∃ s : Session ℝ ℂ, Allocated 2 s ∧ s.state = some #[1, 0, 0, 0] ∧
      ReadsRange "QFT" 1 0 "QFT q[1:0];" ∧
      ∃ s', (perform true "QFT q[1:0];").run s = .ok () s' ∧ s'.state = some #[1, 0, 0, 0] := by
  let s : Session ℝ ℂ :=
    { Session.initial with
      size := 2, state := some #[1, 0, 0, 0], measured := Array.replicate 2 false }
  have ready : Allocated 2 s := ⟨by norm_num, rfl, rfl, ⟨_, rfl, rfl⟩, fun _ none => nomatch none⟩
  have reads : ReadsRange "QFT" 1 0 "QFT q[1:0];" := by decide +kernel
  rcases perform_fourier_downward (n := 2) (i := 1) (f := 0) true one_pos one_le_two (.inl rfl)
    reads ready rfl with ⟨-, s', run, -, state⟩ | ⟨beyond, -⟩
  · exact ⟨s, ready, rfl, reads, s', run, state⟩
  · exact absurd beyond (lt_irrefl 1)

end Script

end Qubits
