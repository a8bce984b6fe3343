import Qubits.Proofs.SessionInvariant
import Qubits.Proofs.UnitVector
import Qubits.Proofs.Passes
import Qubits.Proofs.Shapes

/-!
# The state stays normalised

Over exact arithmetic the state vector of a run has norm one from its preparation to its end.
Every gate kernel keeps unit vectors (`kernelsKeep_unitVector`), the controlled NOT as long as
its control and its target differ, so the session invariant holds along the second pass and the
final reports once it holds after the preparation. The preparation gives a unit vector: the
ground state is one, and a random or modular start is divided by its norm, which needs that
norm not to be zero. The main statement, `runProgram_keeps_norm`, covers every point between two
lines of the second pass, the end of the run whether it returns or stops with a fault, and the
vector the final reports read.
-/

namespace Qubits.Script

open Std.Do Gate Finset StateVector

set_option mvcgen.warning false

theorem kernelsKeep_unitVector (n : ℕ) : KernelsKeep (UnitVector n) n (· ≠ ·) where
  oneQubit := by
    intro g q a b nonneg inside unit h
    lift q to ℕ using nonneg
    exact g.unitVector_apply (by omega) unit h
  hadamardAll := unitVector_hadamardAll
  phaseRoot := by
    intro q k a b nonneg inside unit h
    lift q to ℕ using nonneg
    exact unitVector_phaseRoot (by omega) unit h
  controlledNot := by
    intro c t a b control target inside apart unit h
    lift c to ℕ using control
    lift t to ℕ using target
    exact unitVector_controlledNot (by omega) (by omega) unit h
  controlledPhase := by
    intro c t k a b control target unit h
    lift c to ℕ using control
    lift t to ℕ using target
    exact unitVector_controlledPhase unit h
  negateAt _ := unitVector_negateAt
  reverseQubits := unitVector_reverseQubits
  fourierBlock _ _ := unitVector_fourierBlock

theorem foldl_add_norm_sq (l : List ℂ) (c : ℝ) :
    l.foldl (fun acc x => acc + RealScalar.powTwo (Amplitude.abs x)) c =
      c + ∑ k ∈ range l.length, ‖l.getD k 0‖ ^ 2 := by
  induction l generalizing c with
  | nil => simp
  | cons x l ih =>
    rw [List.foldl_cons, ih, List.length_cons, sum_range_succ']
    simp only [Exact.powTwo_eq, Exact.abs_eq, List.getD_cons_succ, List.getD_cons_zero]
    ring

theorem squaredNorm_eq_normSq (a : Array ℂ) : (squaredNorm a : ℝ) = normSq a := by
  unfold squaredNorm normSq
  rw [← Array.foldl_toList, foldl_add_norm_sq, Exact.ofInt_eq, Int.cast_zero, zero_add,
    Array.length_toList]
  refine sum_congr rfl fun k _ => ?_
  simp [amp, Array.getD_eq_getD_getElem?, List.getD_eq_getElem?_getD]

theorem amp_map {f : ℂ → ℂ} (zero : f 0 = 0) (a : Array ℂ) (k : ℕ) :
    amp (a.map f) k = f (amp a k) := by
  by_cases hk : k < a.size
  · simp [amp, Array.getD, hk]
  · simp [amp, Array.getD, hk, zero]

theorem normSq_nonneg (a : Array ℂ) : 0 ≤ normSq a :=
  sum_nonneg fun _ _ => by positivity

theorem normSq_normalize {a : Array ℂ} (nonzero : normSq a ≠ 0) : normSq (normalize a) = 1 := by
  have positive : 0 < normSq a := lt_of_le_of_ne (normSq_nonneg a) (Ne.symm nonzero)
  have scaled : ∀ k, ‖amp (normalize a) k‖ ^ 2 = ‖amp a k‖ ^ 2 / normSq a := by
    intro k
    simp only [normalize, Exact.divReal_eq, Exact.sqrt_eq, squaredNorm_eq_normSq]
    rw [amp_map (by simp), norm_div, Complex.norm_real, Real.norm_of_nonneg (Real.sqrt_nonneg _),
      div_pow, Real.sq_sqrt positive.le]
  calc normSq (normalize a) = ∑ k ∈ range a.size, ‖amp a k‖ ^ 2 / normSq a := by
        unfold normSq
        rw [size_normalize]
        exact sum_congr rfl fun k _ => scaled k
    _ = normSq a / normSq a := by rw [← sum_div]; rfl
    _ = 1 := div_self nonzero

theorem unitVector_normalize {n : ℕ} {a : Array ℂ} (size : a.size = 2 ^ n) (nonzero : normSq a ≠ 0) :
    UnitVector n (normalize a) :=
  ⟨(size_normalize a).trans size, normSq_normalize nonzero⟩

theorem unitVector_ground (n : ℕ) :
    UnitVector n ((zeros (2 ^ n) : Array ℂ).setIfInBounds 0 (Amplitude.ofReal (RealScalar.ofInt 1))) := by
  have inside : 0 < (zeros (2 ^ n) : Array ℂ).size := by simp [zeros]
  have amps : ∀ k, amp ((zeros (2 ^ n)).set 0 1 inside) k = if k = 0 then 1 else 0 := by
    intro k
    rw [amp_set inside, zeros_eq, amp_tabulate]
    split_ifs <;> rfl
  rw [Array.setIfInBounds, dif_pos inside]
  refine ⟨by simp [zeros], ?_⟩
  unfold normSq
  simp only [Array.size_set, Exact.ofReal_eq, Exact.ofInt_eq, Int.cast_one, Complex.ofReal_one, amps]
  rw [sum_eq_single 0 (fun k _ hk => by simp [hk]) (fun h => absurd (mem_range.mpr inside) h)]
  simp

theorem size_allocated {n m : ℕ} (h : registerSize n = .ok m) : (zeros m : Array ℂ).size = 2 ^ n := by
  rw [size_zeros, registerSize_ok h]

theorem unitVector_allocated_ground {n m : ℕ} (h : registerSize n = .ok m) :
    UnitVector n ((zeros m : Array ℂ).setIfInBounds 0 (Amplitude.ofReal (RealScalar.ofInt 1))) :=
  registerSize_ok h ▸ unitVector_ground n

/-- The vector a preparation divides by its norm: the random amplitudes or the modular powers
written into the zero register. The ground state needs no division. -/
noncomputable def initialFill (g : Random.Twister) (s : Session ℝ ℂ) : Option (Array ℂ) :=
  match s.start with
  | .ground => none
  | .random first last => some (randomFill first last g (zeros (2 ^ s.size)))
  | .modular modulus base =>
    some (fillUntilFault (modularEntry modulus base) (zeros (2 ^ s.size))).1

theorem prepare_normalises {g : Random.Twister} {s₁ s₀ : Session ℝ ℂ} (fresh : s₁.report = none)
    (nonzero : ∀ a, initialFill g s₁ = some a → normSq a ≠ 0)
    (prepared : (prepare g).run s₁ = .ok () s₀) : Holds (UnitVector s₁.size) s₁.size s₀ := by
  refine @run_ok_of_partial _ _ _ _ (fun s => s = s₁)
    (fun _ s => Holds (UnitVector s₁.size) s₁.size s) ?_ _ _ _ rfl prepared
  mvcgen -trivial [prepare, checkPrintable, emit, Script.ofExcept, setState, fail] with
    grind [holds_iff, initialFill, unitVector_allocated_ground, unitVector_normalize, size_randomFill,
      size_fillUntilFault, size_allocated, registerSize_ok, Array.size_replicate]

/-- The state vector of a session exists and has norm one, and so has the vector the final reports
read, once a step has set it. -/
def Normalised (s : Session ℝ ℂ) : Prop :=
  (∃ a, s.state = some a ∧ normSq a = 1) ∧ ∀ c, s.report = some c → normSq c = 1

theorem Holds.normalised {n : ℕ} {s : Session ℝ ℂ} (holds : Holds (UnitVector n) n s) :
    Normalised s := by
  obtain ⟨a, state, unit⟩ := holds.state
  exact ⟨⟨a, state, unit.2⟩, fun c report => (holds.report c report).2⟩

theorem runProgram_keeps_norm (logarithm : Bool) (seed : ℤ) (text : String)
    (apart : ∀ line ∈ Text.fileLines text, ControlsApart (· ≠ ·) line)
    {s₁ s₀ : Session ℝ ℂ}
    (surveyed : (firstPass (Text.fileLines text)).run Session.initial = .ok () s₁)
    (nonzero : ∀ a, initialFill (Random.Twister.seeded seed) s₁ = some a → normSq a ≠ 0)
    (prepared : (prepare (Random.Twister.seeded seed)).run s₁ = .ok () s₀) :
    (∀ done, done <+: Text.fileLines text →
      Normalised (endSession ((secondPass logarithm done).run s₀))) ∧
    Normalised (endSession ((runProgram logarithm seed text).run Session.initial)) := by
  obtain ⟨⟨-, -, fresh⟩, fits⟩ :=
    run_ok_of_partial (firstPass_spec (Text.fileLines text) Session.initial) rfl surveyed
  have start : Holds (UnitVector s₁.size) s₁.size s₀ := prepare_normalises fresh nonzero prepared
  have keep := kernelsKeep_unitVector s₁.size
  constructor
  · intro done before
    exact (holds_endSession (secondPass_keeps keep logarithm
      (fun line mem => fits line (before.subset mem))
      (fun line mem => apart line (before.subset mem))) start).normalised
  · rw [runProgram_run surveyed prepared]
    exact (holds_endSession (secondPass_conclude_keeps keep logarithm fits apart) start).normalised

theorem runProgram_keeps_norm_bell : ∃ s₁ s₀ : Session ℝ ℂ,
    (firstPass (Text.fileLines "h q[0];\ncx q[0], q[1];\n")).run Session.initial = .ok () s₁ ∧
    (prepare (Random.Twister.seeded 0)).run s₁ = .ok () s₀ ∧
    (∀ done, done <+: Text.fileLines "h q[0];\ncx q[0], q[1];\n" →
      Normalised (endSession ((secondPass true done).run s₀))) ∧
    Normalised (endSession ((runProgram true 0 "h q[0];\ncx q[0], q[1];\n").run Session.initial)) := by
  -- the first pass runs on texts and integers only, so the kernel evaluates it
  obtain ⟨_, s₁, surveyed, checked⟩ := @exists_ok_of_check Fault (Session ℝ ℂ) Unit
    (fun s => decide (s.size < 59) && match s.start with | .ground => true | _ => false)
    ((firstPass (Text.fileLines "h q[0];\ncx q[0], q[1];\n") : Run ℝ ℂ Unit).run Session.initial)
    (by decide +kernel)
  have small : s₁.size < 59 := by simp_all
  have ground : s₁.start = .ground := by
    cases start : s₁.start <;> simp_all
  obtain ⟨s₀, prepared⟩ := prepare_ground_ok (Random.Twister.seeded 0) ground small
  have apart : ∀ line ∈ Text.fileLines "h q[0];\ncx q[0], q[1];\n", ControlsApart (· ≠ ·) line := by
    decide +kernel
  have nonzero : ∀ a, initialFill (Random.Twister.seeded 0) s₁ = some a → normSq a ≠ 0 := by
    simp [initialFill, ground]
  exact ⟨s₁, s₀, surveyed, prepared, runProgram_keeps_norm true 0 _ apart surveyed nonzero prepared⟩

end Qubits.Script
