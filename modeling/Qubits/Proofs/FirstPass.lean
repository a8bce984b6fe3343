import Mathlib
import Qubits.Script.Program
import Qubits.Proofs.Scatter
import Qubits.Proofs.Runs

/-!
# What the first pass guarantees

The qubit operands of a command are read off its digits, so they are never negative
(`operands_qubits_nonneg`). The first pass makes the register one qubit larger than every qubit a
command on qubits names, and never shrinks it; so once it has run over a whole program, every
qubit that a command of the program names, and every qubit of the ranges it names, is a qubit of
the register (`firstPass_spec`). It leaves the state vector and the report as they were. The
second pass relies on this for every gate it applies.
-/

namespace Qubits.Script

open Text Std.Do

set_option mvcgen.warning false
set_option linter.unusedSectionVars false

variable {R K : Type} [RealScalar R] [Amplitude R K]

theorem boundOf_nonneg {ds : List ℕ} {v : ℤ} (h : boundOf ds = some v) : 0 ≤ v := by
  unfold boundOf at h
  split at h <;> simp only [Option.some.injEq, reduceCtorEq] at h <;> omega

theorem numberOf_nonneg (ds : List ℕ) : 0 ≤ numberOf ds := Int.natCast_nonneg _

theorem needBound_eq {name : String} {x : Option ℤ} {v : ℤ} (h : needBound name x = .ok v) :
    x = some v := by
  unfold needBound at h
  split at h <;> simp_all

theorem rangeOf_nonneg {name : String} {single : List ℕ → Option ℤ}
    (hsingle : ∀ ds v, single ds = some v → 0 ≤ v) {cs : List Char} {i j : Option ℤ}
    (h : rangeOf name single cs = .ok (i, j)) :
    (∀ v, i = some v → 0 ≤ v) ∧ (∀ v, j = some v → 0 ≤ v) := by
  unfold rangeOf at h
  split at h
  · simp only [bind_eq_ok, pure_eq_ok, Except.ok.injEq, Prod.mk.injEq] at h
    obtain ⟨_, _, _, _, rfl, rfl⟩ := h
    exact ⟨fun _ => boundOf_nonneg, fun _ => boundOf_nonneg⟩
  · simp only [bind_eq_ok, pure_eq_ok, Except.ok.injEq, Prod.mk.injEq] at h
    obtain ⟨_, _, w, hw, rfl, rfl⟩ := h
    have nonneg := hsingle _ _ (needBound_eq hw)
    exact ⟨fun v hv => by simp_all, fun v hv => by simp_all⟩

theorem needBounds_nonneg {name : String} {single : List ℕ → Option ℤ}
    (hsingle : ∀ ds v, single ds = some v → 0 ≤ v) {cs : List Char} {i j : Option ℤ}
    (h : rangeOf name single cs = .ok (i, j)) {first last : String} {v w : ℤ}
    (hv : needBound first i = .ok v) (hw : needBound last j = .ok w) : 0 ≤ v ∧ 0 ≤ w :=
  ⟨(rangeOf_nonneg hsingle h).1 v (needBound_eq hv), (rangeOf_nonneg hsingle h).2 w (needBound_eq hw)⟩

theorem rangeOperands_nonneg {cs : List Char} {o : Operands} (h : rangeOperands cs = .ok o) :
    0 ≤ o.controlFrom ∧ 0 ≤ o.controlTo := by
  simp only [rangeOperands, bind_eq_ok, pure_eq_ok, Except.ok.injEq] at h
  obtain ⟨⟨i, j⟩, hr, v, hv, w, hw, rfl⟩ := h
  exact needBounds_nonneg (fun ds _ h => by
    simp only [Option.some.injEq] at h
    exact h ▸ numberOf_nonneg ds) hr hv hw

theorem phaseOperands_nonneg {cs : List Char} {o : Operands} (h : phaseOperands cs = .ok o) :
    0 ≤ o.controlFrom ∧ 0 ≤ o.controlTo := by
  simp only [phaseOperands, bind_eq_ok, pure_eq_ok, Except.ok.injEq] at h
  obtain ⟨⟨i, j⟩, hr, _, _, v, hv, w, hw, rfl⟩ := h
  exact needBounds_nonneg (fun _ _ => boundOf_nonneg) hr hv hw

theorem controlledOperands_nonneg {cs : List Char} {o : Operands}
    (h : controlledOperands cs = .ok o) :
    0 ≤ o.controlFrom ∧ 0 ≤ o.controlTo ∧ 0 ≤ o.targetFrom ∧ 0 ≤ o.targetTo := by
  simp only [controlledOperands, bind_eq_ok, pure_eq_ok, Except.ok.injEq] at h
  obtain ⟨⟨c, c'⟩, hc, ⟨t, t'⟩, ht, v, hv, v', hv', w, hw, w', hw', rfl⟩ := h
  exact ⟨(needBounds_nonneg (fun _ _ => boundOf_nonneg) hc hv hv').1,
    (needBounds_nonneg (fun _ _ => boundOf_nonneg) hc hv hv').2,
    needBounds_nonneg (fun _ _ => boundOf_nonneg) ht hw hw'⟩

theorem controlledPhaseOperands_nonneg {cs : List Char} {o : Operands}
    (h : controlledPhaseOperands cs = .ok o) : 0 ≤ o.controlFrom ∧ 0 ≤ o.controlTo := by
  -- a range is refused before anything is read
  by_cases ranged : cs.contains ':' = true
  · simp only [controlledPhaseOperands, ranged, if_true, throw_eq_error, error_bind,
      reduceCtorEq] at h
  simp only [controlledPhaseOperands, ranged, Bool.false_eq_true, if_false, bind_eq_ok,
    pure_eq_ok] at h
  obtain ⟨_, _, _, _, _, _, v, hv, w, hw, h⟩ := h
  split at h
  · simp only [Except.ok.injEq] at h
    subst h
    exact ⟨boundOf_nonneg (needBound_eq hv), boundOf_nonneg (needBound_eq hw)⟩
  · cases h

theorem lineWord_of_commandWord {line w : String} (h : commandWord line = .ok w) :
    lineWord line = w := by
  unfold commandWord at h
  unfold lineWord
  split at h
  · rename_i listed
    simp_all
  · cases h

theorem operands_qubits_nonneg {line : String} {o : Operands} (h : operands line = .ok o)
    (hword : lineWord line ≠ "N&m") :
    0 ≤ o.controlFrom ∧ 0 ≤ o.controlTo ∧
      (lineWord line = "cx" → 0 ≤ o.targetFrom ∧ 0 ≤ o.targetTo) := by
  unfold operands at h
  rw [bind_eq_ok] at h
  obtain ⟨w, hw, h⟩ := h
  rw [lineWord_of_commandWord hw] at hword ⊢
  split at h
  · obtain ⟨c, c', t, t'⟩ := controlledOperands_nonneg h
    exact ⟨c, c', fun _ => ⟨t, t'⟩⟩
  · obtain ⟨i, j⟩ := phaseOperands_nonneg h
    exact ⟨i, j, fun same => absurd same (by decide)⟩
  · obtain ⟨i, j⟩ := controlledPhaseOperands_nonneg h
    exact ⟨i, j, fun same => absurd same (by decide)⟩
  · exact absurd rfl hword
  · rename_i notCx _ _ _
    obtain ⟨i, j⟩ := rangeOperands_nonneg h
    exact ⟨i, j, fun cx => absurd cx notCx⟩

def sizedWords : List String := sizingWords ++ ["sk", "cx", "csk"]

def RangeFits (n : ℕ) (i f : ℤ) : Prop := 0 ≤ i ∧ i < n ∧ 0 ≤ f ∧ f < n

/-- The operands of a command with word `word` name qubits of an `n`-qubit register: the range of
its first two operands and, for `cx`, the range of its targets. -/
def OperandsFit (n : ℕ) (word : String) (o : Operands) : Prop :=
  (word ∈ sizedWords → RangeFits n o.controlFrom o.controlTo) ∧
    (word = "cx" → RangeFits n o.targetFrom o.targetTo)

def LineFits (n : ℕ) (line : String) : Prop :=
  ∀ o, operands line = .ok o → OperandsFit n (lineWord line) o

theorem mem_qubitRange {i f q : ℤ} (h : q ∈ qubitRange i f) : min i f ≤ q ∧ q ≤ max i f := by
  unfold qubitRange at h
  split at h <;> simp only [List.mem_map, List.mem_range] at h <;> omega

theorem RangeFits.mem {n : ℕ} {i f q : ℤ} (fits : RangeFits n i f) (h : q ∈ qubitRange i f) :
    0 ≤ q ∧ q < n := by
  have within := mem_qubitRange h
  unfold RangeFits at fits
  omega

theorem RangeFits.mono {m n : ℕ} (le : m ≤ n) {i f : ℤ} (fits : RangeFits m i f) :
    RangeFits n i f := by
  unfold RangeFits at *
  omega

theorem RangeFits.at_split {n : ℕ} {i f cur : ℤ} {pref suff : List ℤ} (fits : RangeFits n i f)
    (split : qubitRange i f = pref ++ cur :: suff) : 0 ≤ cur ∧ cur < n :=
  fits.mem (split ▸ by simp)

theorem LineFits.mono {m n : ℕ} (le : m ≤ n) {line : String} (fits : LineFits m line) :
    LineFits n line := fun o ho =>
  ⟨fun sized => ((fits o ho).1 sized).mono le, fun cx => ((fits o ho).2 cx).mono le⟩

/-- A session `s` follows `s₀` in the first pass: the register is no smaller, and the state vector
and the report are untouched. -/
def Surveyed (s₀ s : Session R K) : Prop :=
  s₀.size ≤ s.size ∧ s.state = s₀.state ∧ s.report = s₀.report

theorem Surveyed.trans {s₀ s₁ s₂ : Session R K} (first : Surveyed s₀ s₁) (second : Surveyed s₁ s₂) :
    Surveyed s₀ s₂ :=
  ⟨first.1.trans second.1, second.2.1.trans first.2.1, second.2.2.trans first.2.2⟩

-- the match on the setting words unfolds into a deep chain of string comparisons
set_option maxRecDepth 40000 in
theorem readSetting_frame (word : String) (o : Operands) (s₀ : Session R K) :
    ⦃fun s => ⌜s = s₀⌝⦄ (readSetting word o : Run R K Unit)
    ⦃⇓? _ s => ⌜s.size = s₀.size ∧ s.state = s₀.state ∧ s.report = s₀.report⌝⦄ := by
  unfold readSetting
  split <;> mvcgen [checkPrintable, realOfInt, emit, fail] with grind

theorem lineFits_of_reached {line : String} {o : Operands} {n : ℕ} (ho : operands line = .ok o)
    (hword : lineWord line ≠ "N&m")
    (hc : (o.controlFrom + 1).toNat ≤ n ∧ (o.controlTo + 1).toNat ≤ n)
    (ht : lineWord line = "cx" → (o.targetFrom + 1).toNat ≤ n ∧ (o.targetTo + 1).toNat ≤ n) :
    LineFits n line := by
  intro o' ho'
  rw [ho, Except.ok.injEq] at ho'
  subst ho'
  have nonneg := operands_qubits_nonneg ho hword
  refine ⟨fun _ => ?_, fun cx => ?_⟩
  · unfold RangeFits
    omega
  · have reached := ht cx
    have targets := nonneg.2.2 cx
    unfold RangeFits
    omega

theorem lineFits_of_unsized {line : String} {n : ℕ} (hword : lineWord line ∉ sizedWords) :
    LineFits n line := fun _ _ =>
  ⟨fun sized => absurd sized hword, fun cx => absurd (cx ▸ by decide) hword⟩

theorem mem_sizedWords {w : String} :
    w ∈ sizedWords ↔ w ∈ sizingWords ∨ w = "sk" ∨ w = "cx" ∨ w = "csk" := by
  simp [sizedWords]

-- the match on the gate words unfolds into a deep chain of string comparisons
set_option maxRecDepth 40000 in
theorem gateOfWord_sized {w : String} {g : Gate.OneQubit} (h : gateOfWord w = some g) :
    w ∈ sizedWords := by
  unfold gateOfWord at h
  split at h <;> first | decide | cases h

theorem settingWords_not_sized : ∀ w ∈ settingWords, w ∉ sizedWords := by decide

theorem sizingWords_not_cx : ∀ w ∈ sizingWords, w ≠ "cx" ∧ w ≠ "N&m" := by decide

theorem survey_spec (line : String) (s₀ : Session R K) :
    ⦃fun s => ⌜s = s₀⌝⦄ (survey line : Run R K Unit)
    ⦃⇓? _ s => ⌜Surveyed s₀ s ∧ LineFits s.size line⌝⦄ := by
  unfold survey operandsOf
  mvcgen -trivial [reach, Script.ofExcept, readSetting_frame] with
  | vc2 | vc4 | vc6 | vc8 | vc10 => trivial
  | vc3 => grind [Surveyed, lineFits_of_unsized, settingWords_not_sized]
  | vc11 => grind [Surveyed, lineFits_of_unsized, mem_sizedWords]
  | vc1 | vc5 | vc7 | vc9 =>
    refine ⟨by grind [Surveyed], lineFits_of_reached ‹_› ?_ ?_ ?_⟩ <;> grind [sizingWords_not_cx]

theorem firstPass_spec (lines : List String) (s₀ : Session R K) :
    ⦃fun s => ⌜s = s₀⌝⦄ (firstPass lines : Run R K Unit)
    ⦃⇓? _ s => ⌜Surveyed s₀ s ∧ ∀ line ∈ lines, LineFits s.size line⌝⦄ := by
  unfold firstPass
  mvcgen [survey_spec] invariants
  · ⇓?⟨cur, _⟩ s => ⌜Surveyed s₀ s ∧ ∀ line ∈ cur.prefix, LineFits s.size line⌝
  case vc1 _ _ _ line _ _ _ s inv _ s' step =>
    obtain ⟨surveyed, fits⟩ := inv
    refine ⟨surveyed.trans step.1, fun l hl => ?_⟩
    rcases List.mem_append.mp hl with earlier | current
    · exact (fits l earlier).mono step.1.1
    · rw [List.mem_singleton.mp current]
      exact step.2
  case vc3 start => exact ⟨start ▸ ⟨le_rfl, rfl, rfl⟩, fun _ none => nomatch none⟩

end Qubits.Script
