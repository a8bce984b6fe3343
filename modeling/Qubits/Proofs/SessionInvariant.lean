import Qubits.Proofs.FirstPass
import Qubits.Proofs.Exact
import Qubits.Proofs.Passes

/-!
# An invariant of the session along a run

Over exact arithmetic, a session `Holds V n` when its register has `n` qubits with as many
measured flags, its state vector exists and has the property `V`, and so has the vector the
reports read, once one is set. `KernelsKeep V n apart` says once, for every gate kernel, that
the kernel keeps `V` on an `n`-qubit register under the conditions the script meets when it
calls it; the controlled NOT only between qubits related by `apart`.

From that, each step of the second pass keeps the invariant, whether it returns or stops with a
fault: one triple per step, with the postcondition `Keeps V n Q`, and `perform_keeps` and
`secondPass_keeps` for a line and a program. The final reports keep it because they only print
(`conclude_keeps`). The steps take their qubits from operands that the first pass has sized the
register for (`LineFits`), and a cx line has its controls apart from its targets
(`ControlsApart`). The instance used is `V = UnitVector n`, for the normalisation of the state
(`kernelsKeep_unitVector`).
-/

open Std.Do Qubits.Gate

namespace Qubits.Script

set_option mvcgen.warning false

structure Holds (V : Array ℂ → Prop) (n : ℕ) (s : Session ℝ ℂ) : Prop where
  size : s.size = n
  measured : s.measured.size = n
  state : ∃ a, s.state = some a ∧ V a
  report : ∀ c, s.report = some c → V c

/-- Every gate kernel keeps the property `V` of vectors of an `n`-qubit register, on the qubits
the script gives it: a one-qubit gate or a phase on a qubit of the register, a controlled NOT
from a qubit to a qubit of the register `apart` from it, a controlled phase between any qubits,
and the Fourier transform in either direction. -/
structure KernelsKeep (V : Array ℂ → Prop) (n : ℕ) (apart : ℤ → ℤ → Prop) : Prop where
  oneQubit : ∀ (g : OneQubit) {q : ℤ} {a b : Array ℂ}, 0 ≤ q → q < n → V a →
    g.apply n q a = .ok b → V b
  hadamardAll : ∀ {a b : Array ℂ}, V a → hadamardAll n a = .ok b → V b
  phaseRoot : ∀ {q : ℤ} (k : ℝ) {a b : Array ℂ}, 0 ≤ q → q < n → V a →
    phaseRoot n q k a = .ok b → V b
  controlledNot : ∀ {c t : ℤ} {a b : Array ℂ}, 0 ≤ c → 0 ≤ t → t < n → apart c t → V a →
    controlledNot n c t a = .ok b → V b
  controlledPhase : ∀ {c t : ℤ} (k : ℝ) {a b : Array ℂ}, 0 ≤ c → 0 ≤ t → V a →
    controlledPhase n c t k a = .ok b → V b
  negateAt : ∀ (index : ℤ) {a b : Array ℂ}, V a → negateAt index a = .ok b → V b
  reverseQubits : ∀ {a b : Array ℂ}, V a → reverseQubits n a = .ok b → V b
  fourierBlock : ∀ (i f : ℤ) {dir : ℝ} {a b : Array ℂ}, (dir = 1 ∨ dir = -1) → V a →
    fourierBlock n i f dir a = .ok b → V b

variable {V : Array ℂ → Prop} {n : ℕ} {apart : ℤ → ℤ → Prop}

theorem holds_iff {s : Session ℝ ℂ} : Holds V n s ↔ s.size = n ∧ s.measured.size = n ∧
    (∃ a, s.state = some a ∧ V a) ∧ ∀ c, s.report = some c → V c :=
  ⟨fun ⟨a, b, c, d⟩ => ⟨a, b, c, d⟩, fun ⟨a, b, c, d⟩ => ⟨a, b, c, d⟩⟩

attribute [grind →] Holds.size

/-- The postcondition of a step that keeps the invariant, whether it returns or stops with a
fault, and returns a value with the property `Q`. -/
abbrev Keeps (V : Array ℂ → Prop) (n : ℕ) {α : Type} (Q : α → Prop) :
    PostCond α (.except Fault (.arg (Session ℝ ℂ) .pure)) :=
  post⟨fun r s => ⌜Holds V n s ∧ Q r⌝, fun _ s => ⌜Holds V n s⌝⟩

def TargetsApart (apart : ℤ → ℤ → Prop) (o : Operands) : Prop :=
  ∀ c ∈ qubitRange o.controlFrom o.controlTo, ∀ t ∈ qubitRange o.targetFrom o.targetTo, apart c t

theorem start_mem_qubitRange (i f : ℤ) : i ∈ qubitRange i f := by
  unfold qubitRange
  split <;> exact List.mem_map.mpr ⟨0, List.mem_range.mpr (by omega), by simp⟩

theorem TargetsApart.at_control {o : Operands} {c : ℤ} {pref suff : List ℤ}
    (h : TargetsApart apart o) (split : qubitRange o.controlFrom o.controlTo = pref ++ c :: suff) :
    apart c o.targetFrom :=
  h c (split ▸ by simp) _ (start_mem_qubitRange _ _)

theorem TargetsApart.at_target {o : Operands} {t : ℤ} {pref suff : List ℤ}
    (h : TargetsApart apart o) (split : qubitRange o.targetFrom o.targetTo = pref ++ t :: suff) :
    apart o.controlFrom t :=
  h _ (start_mem_qubitRange _ _) t (split ▸ by simp)

def ControlsApart (apart : ℤ → ℤ → Prop) (line : String) : Prop :=
  lineWord line = "cx" → ∀ o, operands line = .ok o → TargetsApart apart o

theorem controlsApart_iff {line : String} : ControlsApart apart line ↔
    (lineWord line = "cx" → ∀ o ∈ (operands line).toOption, TargetsApart apart o) := by
  unfold ControlsApart
  cases operands line <;> simp [Except.toOption]

instance [DecidableRel apart] (o : Operands) : Decidable (TargetsApart apart o) :=
  inferInstanceAs (Decidable (∀ c ∈ _, ∀ t ∈ _, apart c t))

instance [DecidableRel apart] (line : String) : Decidable (ControlsApart apart line) :=
  decidable_of_iff _ controlsApart_iff.symm

example : ¬ControlsApart (· ≠ ·) "cx q[0:2], q[1];" := by decide +kernel

@[local spec] theorem currentState_keeps :
    ⦃fun s => ⌜Holds V n s⌝⦄ (currentState : Run ℝ ℂ (Array ℂ)) ⦃Keeps V n V⦄ := by
  mvcgen [currentState, fail] with grind [holds_iff]

@[local spec] theorem setCursor_keeps (q : ℤ) :
    ⦃fun s => ⌜Holds V n s⌝⦄ (setCursor q : Run ℝ ℂ Unit) ⦃Keeps V n fun _ => True⦄ := by
  mvcgen [setCursor] with grind [holds_iff]

@[local spec] theorem showState_keeps (word : String) (verbose : ℤ) (b : Array ℂ) :
    ⦃fun s => ⌜Holds V n s ∧ V b⌝⦄ (showState word n verbose b : Run ℝ ℂ Unit)
    ⦃Keeps V n fun _ => True⦄ := by
  mvcgen [showState, cursorQubit, emit, fail, Script.ofExcept] with grind [holds_iff]

@[local spec] theorem operandsOf_keeps (line : String) :
    ⦃fun s => ⌜Holds V n s⌝⦄ (operandsOf line : Run ℝ ℂ Operands)
    ⦃Keeps V n fun o => operands line = .ok o⦄ := by
  mvcgen -trivial [operandsOf, Script.ofExcept] with grind

@[local spec] theorem checkLogarithm_keeps (k : ℤ) :
    ⦃fun s => ⌜Holds V n s⌝⦄ (checkLogarithm k : Run ℝ ℂ Unit) ⦃Keeps V n fun _ => True⦄ := by
  mvcgen [checkLogarithm, fail]

@[local spec] theorem measureRange_keeps (i f : ℤ) :
    ⦃fun s => ⌜Holds V n s⌝⦄ (measureRange i f : Run ℝ ℂ Unit) ⦃Keeps V n fun _ => True⦄ := by
  unfold measureRange
  mvcgen [emit, fail] invariants
  · post⟨fun _ s => ⌜Holds V n s⌝, fun _ s => ⌜Holds V n s⌝⟩
  with grind [holds_iff]

section Steps

variable (keep : KernelsKeep V n apart)
include keep

@[local spec] theorem oneQubitStep_keeps (g : OneQubit) (q : ℤ) (a : Array ℂ) :
    ⦃fun s => ⌜Holds V n s ∧ V a ∧ 0 ≤ q ∧ q < n⌝⦄ (oneQubitStep g n q a : Run ℝ ℂ (Array ℂ))
    ⦃Keeps V n V⦄ := by
  mvcgen [oneQubitStep, allocate, Script.ofExcept, emit] with
    grind [holds_iff, KernelsKeep.oneQubit, Int.toNat_natCast]

@[local spec] theorem hadamardAllStep_keeps (a : Array ℂ) :
    ⦃fun s => ⌜Holds V n s ∧ V a⌝⦄ (hadamardAllStep n a : Run ℝ ℂ (Array ℂ)) ⦃Keeps V n V⦄ := by
  mvcgen [hadamardAllStep, allocate, Script.ofExcept, emit, fail] with
    grind [holds_iff, KernelsKeep.hadamardAll, Int.toNat_natCast]

@[local spec] theorem rootPhaseStep_keeps (q : ℤ) (k : Numeral) (a : Array ℂ) :
    ⦃fun s => ⌜Holds V n s ∧ V a ∧ 0 ≤ q ∧ q < n⌝⦄ (rootPhaseStep n q k a : Run ℝ ℂ (Array ℂ))
    ⦃Keeps V n V⦄ := by
  mvcgen [rootPhaseStep, allocate, Script.ofExcept, emit] with
    grind [holds_iff, KernelsKeep.phaseRoot, Int.toNat_natCast]

@[local spec] theorem controlledNotStep_keeps (c t : ℤ) (a : Array ℂ) :
    ⦃fun s => ⌜Holds V n s ∧ V a ∧ 0 ≤ c ∧ 0 ≤ t ∧ t < n ∧ apart c t⌝⦄
    (controlledNotStep n c t a : Run ℝ ℂ (Array ℂ)) ⦃Keeps V n V⦄ := by
  mvcgen [controlledNotStep, allocate, Script.ofExcept, emit] with
    grind [holds_iff, KernelsKeep.controlledNot, Int.toNat_natCast]

@[local spec] theorem controlledPhaseStep_keeps (c t : ℤ) (k : Numeral) (a : Array ℂ) :
    ⦃fun s => ⌜Holds V n s ∧ V a ∧ 0 ≤ c ∧ 0 ≤ t⌝⦄
    (controlledPhaseStep n c t k a : Run ℝ ℂ (Array ℂ)) ⦃Keeps V n V⦄ := by
  mvcgen [controlledPhaseStep, allocate, Script.ofExcept, emit] with
    grind [holds_iff, KernelsKeep.controlledPhase, Int.toNat_natCast]

@[local spec] theorem signStep_keeps (index : ℤ) (a : Array ℂ) :
    ⦃fun s => ⌜Holds V n s ∧ V a⌝⦄ (signStep index a : Run ℝ ℂ (Array ℂ)) ⦃Keeps V n V⦄ := by
  mvcgen [signStep, Script.ofExcept, emit] with grind [holds_iff, KernelsKeep.negateAt]

@[local spec] theorem reverseStep_keeps (a : Array ℂ) :
    ⦃fun s => ⌜Holds V n s ∧ V a⌝⦄ (reverseStep n a : Run ℝ ℂ (Array ℂ)) ⦃Keeps V n V⦄ := by
  mvcgen [reverseStep, allocate, Script.ofExcept] with
    grind [holds_iff, KernelsKeep.reverseQubits, Int.toNat_natCast]

@[local spec] theorem fourierStep_keeps (i f : ℤ) (inverse : Bool) (a : Array ℂ) :
    ⦃fun s => ⌜Holds V n s ∧ V a⌝⦄
    (fourierStep n i f (RealScalar.ofInt (if inverse then -1 else 1)) a : Run ℝ ℂ (Array ℂ))
    ⦃Keeps V n V⦄ := by
  have direction : (RealScalar.ofInt (if inverse then -1 else 1) : ℝ) = 1 ∨
      (RealScalar.ofInt (if inverse then -1 else 1) : ℝ) = -1 := by
    cases inverse <;> simp
  mvcgen [fourierStep, allocate, Script.ofExcept] with
    grind [holds_iff, KernelsKeep.fourierBlock, Int.toNat_natCast]

theorem gateOverRange_keeps (word : String) (g : OneQubit) (i f : ℤ) :
    ⦃fun s => ⌜Holds V n s ∧ RangeFits n i f⌝⦄ (gateOverRange word g i f : Run ℝ ℂ Unit)
    ⦃Keeps V n fun _ => True⦄ := by
  unfold gateOverRange
  mvcgen invariants
  · post⟨fun _ s => ⌜Holds V n s ∧ RangeFits n i f⌝, fun _ s => ⌜Holds V n s⌝⟩
  with grind [→ RangeFits.at_split]

theorem phaseOverRange_keeps (i f k : ℤ) :
    ⦃fun s => ⌜Holds V n s ∧ RangeFits n i f⌝⦄ (phaseOverRange i f k : Run ℝ ℂ Unit)
    ⦃Keeps V n fun _ => True⦄ := by
  unfold phaseOverRange
  mvcgen invariants
  · post⟨fun _ s => ⌜Holds V n s ∧ RangeFits n i f⌝, fun _ s => ⌜Holds V n s⌝⟩
  with grind [→ RangeFits.at_split]

@[local spec] theorem controlledNotOnce_keeps (c t : ℤ) :
    ⦃fun s => ⌜Holds V n s ∧ 0 ≤ c ∧ 0 ≤ t ∧ t < n ∧ apart c t⌝⦄
    (controlledNotOnce c t : Run ℝ ℂ Unit) ⦃Keeps V n fun _ => True⦄ := by
  mvcgen [controlledNotOnce] with grind

theorem controlledNots_keeps (o : Operands) :
    ⦃fun s => ⌜Holds V n s ∧ RangeFits n o.controlFrom o.controlTo ∧
      RangeFits n o.targetFrom o.targetTo ∧ TargetsApart apart o⌝⦄
    (controlledNots o : Run ℝ ℂ Unit) ⦃Keeps V n fun _ => True⦄ := by
  unfold controlledNots
  mvcgen invariants
  · post⟨fun _ s => ⌜Holds V n s⌝, fun _ s => ⌜Holds V n s⌝⟩
  · post⟨fun _ s => ⌜Holds V n s⌝, fun _ s => ⌜Holds V n s⌝⟩
  with grind [RangeFits, → RangeFits.at_split, → TargetsApart.at_control,
    → TargetsApart.at_target]

theorem controlledPhaseOnce_keeps (o : Operands) :
    ⦃fun s => ⌜Holds V n s ∧ 0 ≤ o.controlFrom ∧ 0 ≤ o.controlTo⌝⦄
    (controlledPhaseOnce o : Run ℝ ℂ Unit) ⦃Keeps V n fun _ => True⦄ := by
  mvcgen [controlledPhaseOnce] with grind

theorem fourierOnce_keeps (word : String) (i f : ℤ) :
    ⦃fun s => ⌜Holds V n s⌝⦄ (fourierOnce word i f : Run ℝ ℂ Unit) ⦃Keeps V n fun _ => True⦄ := by
  mvcgen [fourierOnce, emit] with grind [holds_iff]

end Steps

theorem holds_endSession {α : Type} {x : Run ℝ ℂ α} {Q : α → Prop}
    (h : ⦃fun s => ⌜Holds V n s⌝⦄ x ⦃Keeps V n Q⦄) {s : Session ℝ ℂ} (hs : Holds V n s) :
    Holds V n (endSession (x.run s)) := by
  have ends := triple_iff.mp h s hs
  split at ends <;> simp_all [endSession]

attribute [local spec] hadamardAllStep_keeps signStep_keeps reverseStep_keeps

theorem perform_keeps (keep : KernelsKeep V n apart) (logarithm : Bool) {line : String}
    (fits : LineFits n line) (controls : ControlsApart apart line) :
    ⦃fun s => ⌜Holds V n s⌝⦄ (perform logarithm line : Run ℝ ℂ Unit) ⦃Keeps V n fun _ => True⦄ := by
  -- the word and the operands are fixed texts of the line; naming them keeps the conditions of
  -- the branches from being evaluated, and the range steps are used at this register and relation
  unfold perform operandsOf
  unfold LineFits at fits
  unfold ControlsApart at controls
  generalize operands line = r at fits controls
  generalize lineWord line = word at fits controls
  have gates := gateOverRange_keeps keep
  have phases := phaseOverRange_keeps keep
  have nots := controlledNots_keeps keep
  have controlled := controlledPhaseOnce_keeps keep
  have fourier := fourierOnce_keeps keep
  mvcgen [fail, Script.ofExcept, gates, phases, nots, controlled, fourier] with
    grind [holds_iff, OperandsFit, RangeFits, gateOfWord_sized, mem_sizedWords]

theorem secondPass_keeps (keep : KernelsKeep V n apart) (logarithm : Bool) {lines : List String}
    (fits : ∀ line ∈ lines, LineFits n line) (controls : ∀ line ∈ lines, ControlsApart apart line) :
    ⦃fun s => ⌜Holds V n s⌝⦄ (secondPass logarithm lines : Run ℝ ℂ Unit)
    ⦃Keeps V n fun _ => True⦄ := by
  unfold secondPass
  mvcgen [perform_keeps] invariants
  · post⟨fun _ s => ⌜Holds V n s⌝, fun _ s => ⌜Holds V n s⌝⟩
  with grind

theorem Holds.of_onlyPrinted {s₀ s : Session ℝ ℂ} (printed : OnlyPrinted s₀ s)
    (holds : Holds V n s₀) : Holds V n s := by
  rw [← printed] at holds
  exact ⟨holds.size, holds.measured, holds.state, holds.report⟩

theorem conclude_keeps :
    ⦃fun s => ⌜Holds V n s⌝⦄ (conclude : Run ℝ ℂ Unit) ⦃Keeps V n fun _ => True⦄ := by
  mvcgen [conclude_prints] with grind [Holds.of_onlyPrinted, OnlyPrinted.refl]

theorem secondPass_conclude_keeps (keep : KernelsKeep V n apart) (logarithm : Bool)
    {lines : List String} (fits : ∀ line ∈ lines, LineFits n line)
    (controls : ∀ line ∈ lines, ControlsApart apart line) :
    ⦃fun s => ⌜Holds V n s⌝⦄ (secondPass logarithm lines >>= fun _ => conclude : Run ℝ ℂ Unit)
    ⦃Keeps V n fun _ => True⦄ := by
  have second := secondPass_keeps keep logarithm fits controls
  have last := @conclude_keeps V n
  mvcgen [second, last] with grind

end Qubits.Script
