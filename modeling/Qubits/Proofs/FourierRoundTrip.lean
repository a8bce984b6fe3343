import Qubits.Proofs.FourierBlock
import Qubits.Proofs.Bounds

/-!
# The Fourier transform and its inverse in a program

A line `QFT q[i:f];` applies the block transform with direction `1` to the qubits `i … f`, and
`IQFT q[i:f];` the one with direction `-1`. On an allocated register whose state has `2^n`
amplitudes, such a line always returns and leaves the transform of the state as the new state
(`perform_fourier_ok`); it prints what it prints, and the rest of the session stays allocated.

The two directions undo each other on every block (`fourierBlock_bind_neg`), so a `QFT` line
followed by an `IQFT` line on the same qubits gives back the state the first found
(`fourierBlock_inverse_round_trip`).
-/

namespace Qubits.Script

open Std.Do Gate StateVector

set_option mvcgen.warning false

section Steps

variable {R K : Type} [RealScalar R] [Amplitude R K] {n : ℕ}

omit [RealScalar R] in
theorem showState_ok (word : String) (verbose : ℤ) (b : Array K) :
    ⦃fun s => ⌜Allocated n s ∧ b.size = 2 ^ n ∧
      (quietWords.contains word = true ∨ s.cursor.isSome)⌝⦄
    (showState word n verbose b : Run R K Unit) ⦃⇓ _ s => ⌜Allocated n s ∧ s.state = some b⌝⦄ := by
  mvcgen [showState, cursorQubit, emit, fail, Script.ofExcept] with
    grind [allocated_iff, → nonzeroEntries_error]

theorem fourierOnce_ok (word : String) (quiet : quietWords.contains word = true) (i f : ℤ)
    {a b : Array K}
    (kernel : fourierBlock n i f (RealScalar.ofInt (if word == "IQFT" then -1 else 1) : R) a = .ok b)
    (size : b.size = 2 ^ n) :
    ⦃fun s => ⌜Allocated n s ∧ s.state = some a⌝⦄ (fourierOnce word i f : Run R K Unit)
    ⦃⇓ _ s => ⌜Allocated n s ∧ s.state = some b⌝⦄ := by
  mvcgen [fourierOnce, emit, currentState, fourierStep, allocate, Script.ofExcept, fail,
    showState_ok] with
    grind [allocated_iff, registerSize_small]

theorem perform_fourier_ok (logarithm : Bool) {line : String} {o : Operands} {a b : Array K}
    (word : lineWord line = "QFT" ∨ lineWord line = "IQFT") (reads : operands line = .ok o)
    (kernel : fourierBlock n o.controlFrom o.controlTo
      (RealScalar.ofInt (if lineWord line == "IQFT" then -1 else 1) : R) a = .ok b)
    (size : b.size = 2 ^ n) :
    ⦃fun s => ⌜Allocated n s ∧ s.state = some a⌝⦄ (perform logarithm line : Run R K Unit)
    ⦃⇓ _ s => ⌜Allocated n s ∧ s.state = some b⌝⦄ := by
  have quiet : quietWords.contains (lineWord line) = true := by
    rcases word with named | named <;> rw [named] <;> decide
  have once := fourierOnce_ok (lineWord line) quiet o.controlFrom o.controlTo kernel size
  unfold perform operandsOf
  rw [reads]
  generalize lineWord line = w at word once
  -- once the word is fixed, the tests of the other command words are closed and decided
  rcases word with rfl | rfl <;> simp +decide only [ite_false, ite_true] <;>
    mvcgen -trivial [Script.ofExcept, once] with grind

theorem perform_fourier_run (logarithm : Bool) {line : String} {o : Operands} {a b : Array K}
    (word : lineWord line = "QFT" ∨ lineWord line = "IQFT") (reads : operands line = .ok o)
    (kernel : fourierBlock n o.controlFrom o.controlTo
      (RealScalar.ofInt (if lineWord line == "IQFT" then -1 else 1) : R) a = .ok b)
    (size : b.size = 2 ^ n) {s : Session R K} (ready : Allocated n s) (current : s.state = some a) :
    ∃ s', (perform logarithm line).run s = .ok () s' ∧ Allocated n s' ∧ s'.state = some b := by
  have step := @perform_fourier_ok R K _ _ n logarithm line o a b word reads kernel size
  -- matching the triple against the run lemma must not unfold the program, so it is named
  generalize (perform logarithm line : Run R K Unit) = x at step ⊢
  obtain ⟨_, s', run, after⟩ := exists_run_ok step ⟨ready, current⟩
  exact ⟨s', run, after⟩

end Steps

/-- A line that runs `word` over the qubits `i … f`: its command word is `word`, and its operands
read `i` and `f` as the first and last qubit. -/
def ReadsRange (word : String) (i f : ℤ) (line : String) : Prop :=
  lineWord line = word ∧ ∃ o, operands line = .ok o ∧ o.controlFrom = i ∧ o.controlTo = f

theorem readsRange_iff {word line : String} {i f : ℤ} : ReadsRange word i f line ↔
    lineWord line = word ∧ ∃ o ∈ (operands line).toOption, o.controlFrom = i ∧ o.controlTo = f := by
  unfold ReadsRange
  cases operands line <;> simp [Except.toOption]

instance (word : String) (i f : ℤ) (line : String) : Decidable (ReadsRange word i f line) :=
  decidable_of_iff _ readsRange_iff.symm

example : ReadsRange "QFT" 2 7 "QFT q[2:7];" := by decide +kernel

variable {n : ℕ}

theorem perform_fourier_exact (logarithm : Bool) {word line : String} {i f : ℕ} {dir : ℝ}
    (hif : i ≤ f) (hf : f < n) (reads : ReadsRange word i f line)
    (direction : (word = "QFT" ∧ dir = 1) ∨ (word = "IQFT" ∧ dir = -1)) {s : Session ℝ ℂ}
    {a : Array ℂ} (ready : Allocated n s) (current : s.state = some a) :
    ∃ s', (perform logarithm line).run s = .ok () s' ∧ Allocated n s' ∧
      s'.state = some (tabulate (2 ^ n) (blockFourier dir i (f + 1) (amp a))) := by
  obtain ⟨named, o, ho, first, last⟩ := reads
  obtain ⟨-, -, -, ⟨a', stated, size⟩, -⟩ := allocated_iff.mp ready
  rw [current, Option.some.injEq] at stated
  subst stated
  have chosen : (RealScalar.ofInt (if lineWord line == "IQFT" then -1 else 1) : ℝ) = dir := by
    rcases direction with ⟨rfl, rfl⟩ | ⟨rfl, rfl⟩ <;> rw [named] <;> simp
  have kernel : fourierBlock n o.controlFrom o.controlTo
      (RealScalar.ofInt (if lineWord line == "IQFT" then -1 else 1) : ℝ) a =
        .ok (tabulate (2 ^ n) (blockFourier dir i (f + 1) (amp a))) := by
    rw [chosen, first, last, natCast_last f]
    exact fourierBlock_eq dir (by omega) hf size
  have word : lineWord line = "QFT" ∨ lineWord line = "IQFT" := by
    rcases direction with ⟨rfl, -⟩ | ⟨rfl, -⟩ <;> simp [named]
  exact perform_fourier_run (R := ℝ) (K := ℂ) logarithm word ho kernel (size_tabulate _ _) ready
    current

/-- The Fourier transform and its inverse on a block `i … f` of an `n`-qubit register undo each
other, over exact arithmetic: either one followed by the other gives back the vector, and each
keeps the total probability. In a program, a line running `QFT` over `i … f` followed by one
running `IQFT` over the same qubits, performed on an allocated register, returns with the state
it started from. -/
theorem fourierBlock_inverse_round_trip {i f : ℕ} (hif : i ≤ f) (hf : f < n) :
    (∀ a : Array ℂ, a.size = 2 ^ n →
      (fourierBlock n i f (1 : ℝ) a >>= fourierBlock n i f (-1 : ℝ)) = .ok a ∧
      (fourierBlock n i f (-1 : ℝ) a >>= fourierBlock n i f (1 : ℝ)) = .ok a ∧
      (∃ b, fourierBlock n i f (1 : ℝ) a = .ok b ∧ normSq b = normSq a) ∧
      (∃ b, fourierBlock n i f (-1 : ℝ) a = .ok b ∧ normSq b = normSq a)) ∧
    ∀ (logarithm : Bool) (forward backward : String) (s : Session ℝ ℂ) (a : Array ℂ),
      ReadsRange "QFT" i f forward → ReadsRange "IQFT" i f backward →
      Allocated n s → s.state = some a →
      ∃ s', (secondPass logarithm [forward, backward]).run s = .ok () s' ∧ s'.state = some a := by
  have hlow : i ≤ f + 1 := by omega
  have last := natCast_last f
  refine ⟨fun a ha => ⟨?_, ?_, ?_, ?_⟩, ?_⟩
  · rw [last]
    exact fourierBlock_bind_neg (Or.inl rfl) hlow hf ha
  · have inverse := fourierBlock_bind_neg (Or.inr rfl) hlow hf ha
    rw [neg_neg] at inverse
    rw [last]
    exact inverse
  · rw [last]
    exact normSq_fourierBlock (Or.inl rfl) hlow hf ha
  · rw [last]
    exact normSq_fourierBlock (Or.inr rfl) hlow hf ha
  intro logarithm forward backward s a readsForward readsBackward ready current
  obtain ⟨s₁, first, ready₁, transformed⟩ :=
    perform_fourier_exact logarithm hif hf readsForward (Or.inl ⟨rfl, rfl⟩) ready current
  obtain ⟨s₂, second, -, restored⟩ :=
    perform_fourier_exact logarithm hif hf readsBackward (Or.inr ⟨rfl, rfl⟩) ready₁ transformed
  -- the inverse transform of the transformed state is the state the first line found
  have back : tabulate (2 ^ n) (blockFourier (-1) i (f + 1)
      (amp (tabulate (2 ^ n) (blockFourier 1 i (f + 1) (amp a))))) = a := by
    obtain ⟨-, -, -, ⟨a', stated, size⟩, -⟩ := allocated_iff.mp ready
    rw [current, Option.some.injEq] at stated
    subst stated
    have inverse := fourierBlock_bind_neg (Or.inl rfl) hlow hf size
    rw [fourierBlock_eq 1 hlow hf size, ok_bind, fourierBlock_eq (-1) hlow hf (size_tabulate _ _),
      Except.ok.injEq] at inverse
    exact inverse
  refine ⟨s₂, ?_, by rw [restored, back]⟩
  rw [secondPass_cons_run first, secondPass_cons_run second, secondPass_nil]
  rfl

theorem fourierBlock_inverse_round_trip_one_qubit :
    ∃ s : Session ℝ ℂ, Allocated 1 s ∧ s.state = some #[1, 0] ∧
      ReadsRange "QFT" 0 0 "QFT q[0];" ∧ ReadsRange "IQFT" 0 0 "IQFT q[0];" ∧
      ∃ s', (secondPass true ["QFT q[0];", "IQFT q[0];"]).run s = .ok () s' ∧
        s'.state = some #[1, 0] := by
  let s : Session ℝ ℂ :=
    { Session.initial with size := 1, state := some #[1, 0], measured := Array.replicate 1 false }
  have ready : Allocated 1 s := ⟨by norm_num, rfl, rfl, ⟨_, rfl, rfl⟩, fun _ none => nomatch none⟩
  have forward : ReadsRange "QFT" 0 0 "QFT q[0];" := by decide +kernel
  have backward : ReadsRange "IQFT" 0 0 "IQFT q[0];" := by decide +kernel
  exact ⟨s, ready, rfl, forward, backward,
    (fourierBlock_inverse_round_trip (n := 1) le_rfl one_pos).2 true _ _ s _ forward backward ready
      rfl⟩

end Qubits.Script
