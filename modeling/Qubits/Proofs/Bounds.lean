import Qubits.Proofs.Outcomes
import Qubits.Proofs.Passes

/-!
# Index errors

The first pass makes the register one qubit larger than every qubit a line names, so every
index the second pass and the final reports use is inside its array: the amplitudes a kernel
reads and writes, the measured flag of a qubit, and the probability and the terms of an outcome
in the measurement report. In the model an access outside an array is a fault of kind
`IndexError`; the other faults of a run (a name read before it is bound, a phase `e^(iπ/0)`, a
register too large to allocate) are of other kinds.

The steps keep a session whose vectors and flags have the sizes of its register (`Allocated`)
and stop, if at all, with a fault other than an index error. The one index the program does not
bound is that of a sign flip `Sign s;`, which is the number written in the line: a run that stops
with an index error stopped at such a line, with `s ≥ 2^n` (`runProgram_indexError_at_sign`).
-/

namespace Qubits.Script

open Std.Do Gate StateVector

set_option mvcgen.warning false

variable {R K : Type} [RealScalar R] [Amplitude R K]

/-! ## Reading a command -/

section Reading

variable {α β : Type}

def NoIndexError (x : Except Fault α) : Prop := ∀ e, x = .error e → e.kind ≠ "IndexError"

theorem NoIndexError.ok (a : α) : NoIndexError (.ok a : Except Fault α) :=
  fun _ h => nomatch h

theorem NoIndexError.error {e : Fault} (h : e.kind ≠ "IndexError") :
    NoIndexError (.error e : Except Fault α) := by
  rintro _ ⟨⟩
  exact h

theorem NoIndexError.bind {x : Except Fault α} {f : α → Except Fault β} (hx : NoIndexError x)
    (hf : ∀ a, NoIndexError (f a)) : NoIndexError (x >>= f) := by
  cases x with
  | error e =>
    rw [error_bind]
    exact .error (hx e rfl)
  | ok a =>
    rw [ok_bind]
    exact hf a

theorem NoIndexError.mapM {f : α → Except Fault β} (hf : ∀ a, NoIndexError (f a)) (l : List α) :
    NoIndexError (l.mapM f) := by
  induction l with
  | nil => exact .ok []
  | cons a l ih =>
    rw [List.mapM_cons]
    exact (hf a).bind fun _ => ih.bind fun _ => .ok _

theorem digitValues_noIndexError (cs : List Char) : NoIndexError (digitValues cs) := by
  refine NoIndexError.mapM (fun c => ?_) _
  split
  · exact .ok _
  · exact .error (by simp [Fault.kind])

theorem needBound_noIndexError (name : String) (x : Option ℤ) :
    NoIndexError (needBound name x) := by
  cases x with
  | some v => exact .ok v
  | none => exact .error (by simp [Fault.kind])

theorem rangeOf_noIndexError (name : String) (single : List ℕ → Option ℤ) (cs : List Char) :
    NoIndexError (rangeOf name single cs) := by
  unfold rangeOf
  split
  · exact (digitValues_noIndexError _).bind fun _ => (digitValues_noIndexError _).bind fun _ => .ok _
  · exact (digitValues_noIndexError _).bind fun _ => (needBound_noIndexError _ _).bind fun _ => .ok _

theorem rangeOperands_noIndexError (cs : List Char) : NoIndexError (rangeOperands cs) := by
  unfold rangeOperands
  refine (rangeOf_noIndexError _ _ _).bind fun (i, j) => ?_
  exact (needBound_noIndexError _ _).bind fun _ => (needBound_noIndexError _ _).bind fun _ => .ok _

theorem phaseOperands_noIndexError (cs : List Char) : NoIndexError (phaseOperands cs) := by
  unfold phaseOperands
  split
  refine (rangeOf_noIndexError _ _ _).bind fun (i, j) => ?_
  exact (digitValues_noIndexError _).bind fun _ => (needBound_noIndexError _ _).bind fun _ =>
    (needBound_noIndexError _ _).bind fun _ => .ok _

theorem controlledOperands_noIndexError (cs : List Char) :
    NoIndexError (controlledOperands cs) := by
  unfold controlledOperands
  split
  refine (rangeOf_noIndexError _ _ _).bind fun (c, c') => ?_
  refine (rangeOf_noIndexError _ _ _).bind fun (t, t') => ?_
  exact (needBound_noIndexError _ _).bind fun _ => (needBound_noIndexError _ _).bind fun _ =>
    (needBound_noIndexError _ _).bind fun _ => (needBound_noIndexError _ _).bind fun _ => .ok _

theorem intFault_kind (text : List Char) (e : Text.IntReadError) :
    (intFault text e).kind ≠ "IndexError" := by
  cases e <;> simp [intFault, Fault.kind]

theorem controlledPhaseOperands_noIndexError (cs : List Char) :
    NoIndexError (controlledPhaseOperands cs) := by
  unfold controlledPhaseOperands
  dsimp only
  split
  · rw [throw_eq_error, error_bind]
    exact .error (by simp [Fault.kind])
  -- the exponent is read last, and its fault is the one reading can add to those of the digits
  split
  all_goals
    refine (digitValues_noIndexError _).bind fun _ => (digitValues_noIndexError _).bind fun _ =>
      (digitValues_noIndexError _).bind fun _ => (needBound_noIndexError _ _).bind fun _ =>
      (needBound_noIndexError _ _).bind fun _ => ?_
  · exact .ok _
  · exact .error (intFault_kind _ _)

theorem modularOperands_noIndexError (cs : List Char) : NoIndexError (modularOperands cs) := by
  unfold modularOperands
  split
  exact (digitValues_noIndexError _).bind fun _ => (digitValues_noIndexError _).bind fun _ => .ok _

theorem commandWord_eq {line : String} (h : lineWord line ≠ "") :
    commandWord line = .ok (lineWord line) := by
  unfold commandWord
  unfold lineWord at h ⊢
  split
  · rename_i listed
    simp [listed]
  · rename_i listed
    simp [listed] at h

theorem operands_noIndexError {line : String} (h : lineWord line ≠ "") :
    NoIndexError (operands line) := by
  unfold operands
  rw [commandWord_eq h, ok_bind]
  split
  · exact controlledOperands_noIndexError _
  · exact phaseOperands_noIndexError _
  · exact controlledPhaseOperands_noIndexError _
  · exact modularOperands_noIndexError _
  · exact rangeOperands_noIndexError _

end Reading

/-! ## Sessions on an allocated register -/

/-- A session whose register of `n` qubits is allocated: fewer than 59 qubits, a measured flag
for each, and a state vector of `2^n` amplitudes, as is the vector the reports read once a step
has set it. -/
structure Allocated (n : ℕ) (s : Session R K) : Prop where
  small : n < 59
  size : s.size = n
  measured : s.measured.size = n
  state : ∃ a, s.state = some a ∧ a.size = 2 ^ n
  report : ∀ c, s.report = some c → c.size = 2 ^ n

variable {n : ℕ}

omit [RealScalar R] [Amplitude R K] in
theorem allocated_iff {s : Session R K} : Allocated n s ↔ n < 59 ∧ s.size = n ∧
    s.measured.size = n ∧ (∃ a, s.state = some a ∧ a.size = 2 ^ n) ∧
    ∀ c, s.report = some c → c.size = 2 ^ n :=
  ⟨fun ⟨a, b, c, d, e⟩ => ⟨a, b, c, d, e⟩, fun ⟨a, b, c, d, e⟩ => ⟨a, b, c, d, e⟩⟩

/-- The postcondition of a step on an allocated register that keeps it allocated, returns a
value with the property `Q`, and stops, if at all, with a fault other than an index error. -/
abbrev InBounds (n : ℕ) {α : Type} (Q : α → Prop) :
    PostCond α (.except Fault (.arg (Session R K) .pure)) :=
  post⟨fun r s => ⌜Allocated n s ∧ Q r⌝, fun e _ => ⌜e.kind ≠ "IndexError"⌝⟩

omit [RealScalar R] in
theorem negateAt_error_beyond {index : ℤ} {a : Array K} {e : Fault} (h0 : 0 ≤ index)
    (small : a.size ≤ 2 ^ 63) (h : negateAt index a = .error e) : (a.size : ℤ) ≤ index := by
  by_contra inside
  obtain ⟨b, returned, -⟩ := negateAt_returns h0 (not_le.mp inside) small
  rw [returned] at h
  cases h

omit [RealScalar R] in
theorem negateAt_size {index : ℤ} {a b : Array K} (h : negateAt index a = .ok b) :
    b.size = a.size := by
  unfold negateAt at h
  obtain ⟨i, -, h⟩ := bind_eq_ok.mp h
  obtain ⟨x, -, h⟩ := bind_eq_ok.mp h
  unfold write at h
  split at h
  · cases h
    exact Array.size_set _
  · cases h

/-! ## Steps -/

omit [RealScalar R] [Amplitude R K] in
theorem currentState_inBounds :
    ⦃fun s => ⌜Allocated n s⌝⦄ (currentState : Run R K (Array K))
    ⦃InBounds n fun a => a.size = 2 ^ n⦄ := by
  mvcgen [currentState, fail] with grind [allocated_iff, Fault.kind]

omit [RealScalar R] [Amplitude R K] in
theorem setCursor_inBounds (q : ℤ) :
    ⦃fun s => ⌜Allocated n s⌝⦄ (setCursor q : Run R K Unit) ⦃InBounds n fun _ => True⦄ := by
  mvcgen [setCursor] with grind [allocated_iff]

omit [RealScalar R] in
@[local spec] theorem showState_inBounds (word : String) (verbose : ℤ) (b : Array K) :
    ⦃fun s => ⌜Allocated n s ∧ b.size = 2 ^ n⌝⦄ (showState word n verbose b : Run R K Unit)
    ⦃InBounds n fun _ => True⦄ := by
  mvcgen [showState, cursorQubit, emit, fail, Script.ofExcept] with
    grind [allocated_iff, Fault.kind, → nonzeroEntries_error]

omit [RealScalar R] [Amplitude R K] in
theorem checkLogarithm_inBounds (k : ℤ) :
    ⦃fun s => ⌜Allocated n s⌝⦄ (checkLogarithm k : Run R K Unit) ⦃InBounds n fun _ => True⦄ := by
  mvcgen [checkLogarithm, fail]

omit [RealScalar R] [Amplitude R K] in
theorem measureRange_inBounds (i f : ℤ) :
    ⦃fun s => ⌜Allocated n s ∧ RangeFits n i f⌝⦄ (measureRange i f : Run R K Unit)
    ⦃InBounds n fun _ => True⦄ := by
  unfold measureRange
  mvcgen [setCursor, emit, fail] invariants
  · post⟨fun _ s => ⌜Allocated n s ∧ RangeFits n i f⌝, fun e _ => ⌜e.kind ≠ "IndexError"⌝⟩
  with grind [allocated_iff, → RangeFits.at_split]

@[local spec] theorem oneQubitStep_inBounds (g : OneQubit) (q : ℤ) (a : Array K) :
    ⦃fun s => ⌜Allocated n s ∧ a.size = 2 ^ n ∧ 0 ≤ q ∧ q < n⌝⦄
    (oneQubitStep g n q a : Run R K (Array K)) ⦃InBounds n fun b => b.size = 2 ^ n⦄ := by
  mvcgen [oneQubitStep, allocate, Script.ofExcept, emit] with
    grind [allocated_iff, registerSize_small, Returns, OneQubit.apply_returns, Int.toNat_natCast]

@[local spec] theorem hadamardAllStep_inBounds (a : Array K) :
    ⦃fun s => ⌜Allocated n s ∧ a.size = 2 ^ n⌝⦄ (hadamardAllStep n a : Run R K (Array K))
    ⦃InBounds n fun b => b.size = 2 ^ n⦄ := by
  mvcgen [hadamardAllStep, allocate, Script.ofExcept, emit, fail] with
    grind [allocated_iff, registerSize_small, Returns, hadamardAll_returns, Int.toNat_natCast,
      Fault.kind]

@[local spec] theorem rootPhaseStep_inBounds (q : ℤ) (k : Numeral) (a : Array K) :
    ⦃fun s => ⌜Allocated n s ∧ a.size = 2 ^ n ∧ 0 ≤ q⌝⦄
    (rootPhaseStep n q k a : Run R K (Array K)) ⦃InBounds n fun b => b.size = 2 ^ n⦄ := by
  mvcgen [rootPhaseStep, allocate, Script.ofExcept, emit] with
    grind [allocated_iff, registerSize_small, Returns, phaseRoot_returns, Int.toNat_natCast,
      Fault.kind]

omit [RealScalar R] in
@[local spec] theorem controlledNotStep_inBounds (c t : ℤ) (a : Array K) :
    ⦃fun s => ⌜Allocated n s ∧ a.size = 2 ^ n ∧ 0 ≤ c ∧ 0 ≤ t ∧ t < n⌝⦄
    (controlledNotStep n c t a : Run R K (Array K)) ⦃InBounds n fun b => b.size = 2 ^ n⦄ := by
  mvcgen [controlledNotStep, allocate, Script.ofExcept, emit] with
    grind [allocated_iff, registerSize_small, Returns, controlledNot_returns, Int.toNat_natCast]

@[local spec] theorem controlledPhaseStep_inBounds (c t : ℤ) (k : Numeral) (a : Array K) :
    ⦃fun s => ⌜Allocated n s ∧ a.size = 2 ^ n ∧ 0 ≤ c ∧ 0 ≤ t⌝⦄
    (controlledPhaseStep n c t k a : Run R K (Array K)) ⦃InBounds n fun b => b.size = 2 ^ n⦄ := by
  mvcgen [controlledPhaseStep, allocate, Script.ofExcept, emit] with
    grind [allocated_iff, registerSize_small, Returns, controlledPhase_returns, Int.toNat_natCast,
      Fault.kind]

omit [RealScalar R] in
@[local spec] theorem reverseStep_inBounds (a : Array K) :
    ⦃fun s => ⌜Allocated n s ∧ a.size = 2 ^ n⌝⦄ (reverseStep n a : Run R K (Array K))
    ⦃InBounds n fun b => b.size = 2 ^ n⦄ := by
  mvcgen [reverseStep, allocate, Script.ofExcept] with
    grind [allocated_iff, registerSize_small, Returns, reverseQubits_returns, Int.toNat_natCast]

@[local spec] theorem fourierStep_inBounds (i f : ℤ) (dir : R) (a : Array K) :
    ⦃fun s => ⌜Allocated n s ∧ a.size = 2 ^ n⌝⦄ (fourierStep n i f dir a : Run R K (Array K))
    ⦃InBounds n fun b => b.size = 2 ^ n⦄ := by
  mvcgen [fourierStep, allocate, Script.ofExcept] with
    grind [allocated_iff, registerSize_small, Returns, fourierBlock_returns, Int.toNat_natCast,
      Fault.kind]

theorem two_pow_le_of_small (small : n < 59) : 2 ^ n ≤ 2 ^ 63 :=
  Nat.pow_le_pow_right (by norm_num) (by omega)

omit [RealScalar R] in
theorem signStep_bounded (index : ℤ) (a : Array K) :
    ⦃fun s => ⌜Allocated n s ∧ a.size = 2 ^ n ∧ 0 ≤ index⌝⦄ (signStep index a : Run R K (Array K))
    ⦃post⟨fun b s => ⌜Allocated n s ∧ b.size = 2 ^ n⌝, fun _ _ => ⌜2 ^ n ≤ index⌝⟩⦄ := by
  mvcgen [signStep, Script.ofExcept, emit] with
    grind [allocated_iff, negateAt_size, → negateAt_error_beyond, two_pow_le_of_small]

/-! ## Loops over qubits -/

theorem gateOverRange_inBounds (word : String) (g : OneQubit) (i f : ℤ) :
    ⦃fun s => ⌜Allocated n s ∧ RangeFits n i f⌝⦄ (gateOverRange word g i f : Run R K Unit)
    ⦃InBounds n fun _ => True⦄ := by
  unfold gateOverRange
  have cursor := @setCursor_inBounds R K n
  have current := @currentState_inBounds R K n
  mvcgen [cursor, current] invariants
  · post⟨fun _ s => ⌜Allocated n s ∧ RangeFits n i f⌝, fun e _ => ⌜e.kind ≠ "IndexError"⌝⟩
  with grind [allocated_iff, → RangeFits.at_split]

theorem phaseOverRange_inBounds (i f k : ℤ) :
    ⦃fun s => ⌜Allocated n s ∧ RangeFits n i f⌝⦄ (phaseOverRange i f k : Run R K Unit)
    ⦃InBounds n fun _ => True⦄ := by
  unfold phaseOverRange
  have cursor := @setCursor_inBounds R K n
  have current := @currentState_inBounds R K n
  mvcgen [cursor, current] invariants
  · post⟨fun _ s => ⌜Allocated n s ∧ RangeFits n i f⌝, fun e _ => ⌜e.kind ≠ "IndexError"⌝⟩
  with grind [allocated_iff, → RangeFits.at_split]

omit [RealScalar R] in
theorem controlledNotOnce_inBounds (c t : ℤ) :
    ⦃fun s => ⌜Allocated n s ∧ 0 ≤ c ∧ 0 ≤ t ∧ t < n⌝⦄ (controlledNotOnce c t : Run R K Unit)
    ⦃InBounds n fun _ => True⦄ := by
  have current := @currentState_inBounds R K n
  mvcgen [controlledNotOnce, current] with grind [allocated_iff]

omit [RealScalar R] in
theorem controlledNots_inBounds (o : Operands) :
    ⦃fun s => ⌜Allocated n s ∧ RangeFits n o.controlFrom o.controlTo ∧
      RangeFits n o.targetFrom o.targetTo⌝⦄ (controlledNots o : Run R K Unit)
    ⦃InBounds n fun _ => True⦄ := by
  unfold controlledNots
  have once := @controlledNotOnce_inBounds R K _ n
  mvcgen [once] invariants
  · post⟨fun _ s => ⌜Allocated n s⌝, fun e _ => ⌜e.kind ≠ "IndexError"⌝⟩
  · post⟨fun _ s => ⌜Allocated n s⌝, fun e _ => ⌜e.kind ≠ "IndexError"⌝⟩
  with grind [RangeFits, → RangeFits.at_split]

theorem controlledPhaseOnce_inBounds (o : Operands) :
    ⦃fun s => ⌜Allocated n s ∧ 0 ≤ o.controlFrom ∧ 0 ≤ o.controlTo⌝⦄
    (controlledPhaseOnce o : Run R K Unit) ⦃InBounds n fun _ => True⦄ := by
  have logarithms := @checkLogarithm_inBounds R K n
  have current := @currentState_inBounds R K n
  mvcgen [controlledPhaseOnce, logarithms, current] with grind [allocated_iff]

theorem fourierOnce_inBounds (word : String) (i f : ℤ) :
    ⦃fun s => ⌜Allocated n s⌝⦄ (fourierOnce word i f : Run R K Unit) ⦃InBounds n fun _ => True⦄ := by
  have current := @currentState_inBounds R K n
  mvcgen [fourierOnce, emit, current] with grind [allocated_iff]

/-! ## Lines and programs -/

def SignBeyond (n : ℕ) (line : String) : Prop :=
  lineWord line = "Sign" ∧ ∃ o, operands line = .ok o ∧ 2 ^ n ≤ o.controlFrom

theorem ne_empty_of_rangeWords {w : String} (h : rangeWords.contains w = true) : w ≠ "" := by
  rintro rfl
  revert h
  decide

theorem measure_mem_sizedWords : "measure" ∈ sizedWords := by decide

theorem perform_bounded (logarithm : Bool) {line : String} (fits : LineFits n line) :
    ⦃fun s => ⌜Allocated n s⌝⦄ (perform logarithm line : Run R K Unit)
    ⦃post⟨fun _ s => ⌜Allocated n s⌝, fun e _ => ⌜e.kind = "IndexError" → SignBeyond n line⌝⟩⦄ := by
  -- reading the operands raises an index error only for a line without a command word, which
  -- performs nothing
  have reads : ∀ e, operands line = .error e → e.kind = "IndexError" → lineWord line = "" := by
    intro e h kind
    by_contra named
    exact operands_noIndexError named e h kind
  have nonneg := @operands_qubits_nonneg line
  -- the word and the operands are fixed texts of the line; naming them keeps the conditions of
  -- the branches from being evaluated
  unfold perform operandsOf SignBeyond
  unfold LineFits at fits
  generalize operands line = r at fits reads nonneg ⊢
  generalize lineWord line = word at fits reads nonneg ⊢
  -- the loops do not name the register, so their triples are taken at this one
  have measures := @measureRange_inBounds R K n
  have gates := @gateOverRange_inBounds R K _ _ n
  have phases := @phaseOverRange_inBounds R K _ _ n
  have logarithms := @checkLogarithm_inBounds R K n
  have nots := @controlledNots_inBounds R K _ n
  have controlled := @controlledPhaseOnce_inBounds R K _ _ n
  have fourier := @fourierOnce_inBounds R K _ _ n
  have current := @currentState_inBounds R K n
  have signs := @signStep_bounded R K _ n
  mvcgen [fail, Script.ofExcept, measures, gates, phases, logarithms, nots, controlled, fourier,
    current, signs]
  -- what is left is about the operands and the faults, where the triples and the arithmetic of
  -- rings would only slow `grind` down
  all_goals clear measures gates phases logarithms nots controlled fourier current signs
  all_goals grind -ring -linarith [allocated_iff, OperandsFit, RangeFits, gateOfWord_sized,
    mem_sizedWords, Fault.kind, measure_mem_sizedWords, → ne_empty_of_rangeWords]

theorem secondPass_bounded (logarithm : Bool) {lines : List String}
    (fits : ∀ line ∈ lines, LineFits n line) :
    ⦃fun s => ⌜Allocated n s⌝⦄ (secondPass logarithm lines : Run R K Unit)
    ⦃post⟨fun _ s => ⌜Allocated n s⌝,
      fun e _ => ⌜e.kind = "IndexError" → ∃ line ∈ lines, SignBeyond n line⌝⟩⦄ := by
  unfold secondPass
  mvcgen [perform_bounded] invariants
  · post⟨fun _ s => ⌜Allocated n s⌝,
      fun e _ => ⌜e.kind = "IndexError" → ∃ line ∈ lines, SignBeyond n line⌝⟩
  with grind

theorem perform_indexError {logarithm : Bool} {line : String} (fits : LineFits n line)
    {s s' : Session R K} {e : Fault} (ready : Allocated n s)
    (stops : (perform logarithm line).run s = .error e s') (indexError : e.kind = "IndexError") :
    SignBeyond n line :=
  @run_error_of_triple _ _ _ (perform logarithm line) (fun s => Allocated n s)
    (fun _ s => Allocated n s) (fun e _ => e.kind = "IndexError" → SignBeyond n line)
    (@perform_bounded R K _ _ n logarithm line fits) _ _ _ ready stops indexError

omit [RealScalar R] in
theorem negateAt_beyond {index : ℤ} {a : Array K} (beyond : a.size ≤ index)
    (below : index < 2 ^ 63) : negateAt index a = .error (.indexOutOfBounds index a.size) := by
  unfold negateAt resolve
  rw [if_neg (by simp only [Int.pow_eq]; omega), if_neg (by simp only [Int.pow_eq]; omega),
    if_neg (by omega), if_neg (by omega)]
  rfl

omit [RealScalar R] in
theorem signStep_beyond {index : ℤ} (beyond : 2 ^ n ≤ index) (below : index < 2 ^ 63)
    (a : Array K) :
    ⦃fun s => ⌜Allocated n s ∧ a.size = 2 ^ n⌝⦄ (signStep index a : Run R K (Array K))
    ⦃post⟨fun _ _ => ⌜False⌝, fun e _ => ⌜e = .indexOutOfBounds index (2 ^ n)⌝⟩⦄ := by
  refine triple_of_pure fun size => ?_
  have past : (a.size : ℤ) ≤ index := by
    rw [size]
    exact_mod_cast beyond
  unfold signStep
  rw [negateAt_beyond past below, size]
  mvcgen [Script.ofExcept]

theorem perform_sign_beyond (logarithm : Bool) {line : String} {o : Operands}
    (word : lineWord line = "Sign") (read : operands line = .ok o) (beyond : 2 ^ n ≤ o.controlFrom)
    (below : o.controlFrom < 2 ^ 63) :
    ⦃fun s => ⌜Allocated n s⌝⦄ (perform logarithm line : Run R K Unit)
    ⦃post⟨fun _ _ => ⌜False⌝, fun e _ => ⌜e = .indexOutOfBounds o.controlFrom (2 ^ n)⌝⟩⦄ := by
  -- the word selects the branch of the sign flip
  have branch : rangeWords.contains "Sign" = false ∧ ("Sign" == "sk") = false ∧
      ("Sign" == "cx") = false ∧ ("Sign" == "csk") = false ∧ ("Sign" == "Sign") = true := by
    decide
  have flip := @signStep_beyond R K _ n o.controlFrom beyond below
  unfold perform operandsOf
  rw [read, word]
  simp only [branch, Bool.false_eq_true, ↓reduceIte]
  mvcgen -trivial [Script.ofExcept, currentState, fail, flip] with grind [allocated_iff]

theorem perform_sign_error {logarithm : Bool} {line : String} {o : Operands}
    (word : lineWord line = "Sign") (read : operands line = .ok o) (beyond : 2 ^ n ≤ o.controlFrom)
    (below : o.controlFrom < 2 ^ 63) {s : Session R K} (ready : Allocated n s) :
    ∃ s', (perform logarithm line).run s = .error (.indexOutOfBounds o.controlFrom (2 ^ n)) s' := by
  have flips := @perform_sign_beyond R K _ _ n logarithm line o word read beyond below
  -- the line's program is only run here; naming it keeps it from being unfolded
  generalize (perform logarithm line : Run R K Unit) = x at flips ⊢
  obtain ⟨_, s', stops, rfl⟩ := exists_run_error flips ready
  exact ⟨s', stops⟩

theorem secondPass_allocated {logarithm : Bool} {lines : List String}
    (fits : ∀ line ∈ lines, LineFits n line) {s s' : Session R K} (ready : Allocated n s)
    (passed : (secondPass logarithm lines).run s = .ok () s') : Allocated n s' :=
  @run_ok_of_triple _ _ _ (secondPass logarithm lines) (fun s => Allocated n s)
    (fun _ s => Allocated n s)
    (fun e _ => e.kind = "IndexError" → ∃ line ∈ lines, SignBeyond n line)
    (@secondPass_bounded R K _ _ n logarithm lines fits) _ _ _ ready passed

/-! ## The final reports -/

theorem read_error {α : Type} {a : Array α} {j : ℕ} {e : Fault}
    (h : StateVector.read a j = .error e) :
    a.size ≤ j := by
  unfold StateVector.read at h
  split at h
  · cases h
  · omega

theorem lt_of_range_split {m cur : ℕ} {pref suff : List ℕ}
    (split : List.range m = pref ++ cur :: suff) : cur < m :=
  List.mem_range.mp (split ▸ by simp)

theorem finalListing_completes (c : Array K) (threshold : R) (s₀ : Session R K) :
    ⦃fun s => ⌜OnlyPrinted s₀ s ∧ c.size = 2 ^ n⌝⦄ (finalListing n c threshold : Run R K Unit)
    ⦃post⟨fun _ s => ⌜OnlyPrinted s₀ s⌝, fun _ _ => ⌜False⌝⟩⦄ := by
  unfold finalListing
  mvcgen [emit, fail, Script.ofExcept] invariants
  · post⟨fun _ s => ⌜OnlyPrinted s₀ s⌝, fun _ _ => ⌜False⌝⟩
  with grind [→ read_error, → lt_of_range_split, Array.size_map, Nat.pow_eq, OnlyPrinted.push]

theorem outcomeOf_lt (flags : Array Bool) (i : ℕ) :
    ∃ b, outcomeOf flags flags.size i = .ok b ∧ b < 2 ^ flags.countP id :=
  ⟨_, outcomeOf_eq le_rfl i, length_measuredQubits flags ▸ outcomeValue_lt flags flags.size i⟩

section Outcomes

variable {m : ℕ} {c : Array K} {flags : Array Bool}

theorem outcomeProbabilities_ok (hc : c.size = 2 ^ m) (hf : flags.size = m) :
    ∃ ps, (outcomeProbabilities m c flags : Except Fault (Array R)) = .ok ps ∧
      ps.size = 2 ^ flags.countP id := by
  subst hf
  unfold outcomeProbabilities
  refine foldlM_ok (fun ps i mem (size : ps.size = 2 ^ flags.countP id) => ?_) (by simp [Nat.pow_eq])
  have hi : i < c.size := by
    rw [List.mem_range, Nat.pow_eq] at mem
    omega
  obtain ⟨b, outcome, lt⟩ := outcomeOf_lt flags i
  rw [outcome, ok_bind, read_of_lt hi, ok_bind, read_of_lt (by omega), ok_bind]
  exact ⟨_, rfl, by simp [size]⟩

theorem outcomeTerms_ok (hc : c.size = 2 ^ m) (hf : flags.size = m) {probs : Array R}
    (hp : probs.size = 2 ^ flags.countP id) :
    ∃ ts, outcomeTerms m c flags probs = .ok ts ∧ ts.size = 2 ^ flags.countP id := by
  subst hf
  unfold outcomeTerms
  refine foldlM_ok (fun ts i mem (size : ts.size = 2 ^ flags.countP id) => ?_) (by simp [Nat.pow_eq])
  have hi : i < c.size := by
    rw [List.mem_range, Nat.pow_eq] at mem
    omega
  obtain ⟨b, outcome, lt⟩ := outcomeOf_lt flags i
  rw [outcome, ok_bind, read_of_lt hi, ok_bind]
  split
  · rw [read_of_lt (by omega), ok_bind, read_of_lt (by omega), ok_bind]
    exact ⟨_, rfl, by simp [size]⟩
  · exact ⟨ts, rfl, size⟩

end Outcomes

theorem marginalReport_completes (c : Array K) (flags : Array Bool) (s₀ : Session R K) :
    ⦃fun s => ⌜OnlyPrinted s₀ s ∧ (c.size = 2 ^ n ∧ flags.size = n)⌝⦄
    (marginalReport n c flags : Run R K Unit)
    ⦃post⟨fun _ s => ⌜OnlyPrinted s₀ s⌝, fun _ _ => ⌜False⌝⟩⦄ := by
  refine triple_of_pure fun ⟨hc, hf⟩ => ?_
  -- both sums over the basis states return: every outcome, amplitude and bucket is in range
  have hc' : c.size = 2 ^ (n : ℤ).toNat := by simp [hc]
  have hf' : flags.size = (n : ℤ).toNat := by simp [hf]
  obtain ⟨ps, probs, size⟩ := outcomeProbabilities_ok hc' hf'
  obtain ⟨ts, terms, -⟩ := outcomeTerms_ok hc' hf' size
  unfold marginalReport
  simp only [probs, terms, Script.ofExcept, pure_bind]
  mvcgen [emit, fail] invariants
  · post⟨fun _ s => ⌜OnlyPrinted s₀ s⌝, fun _ _ => ⌜False⌝⟩
  · post⟨fun _ s => ⌜OnlyPrinted s₀ s⌝, fun _ _ => ⌜False⌝⟩

omit [RealScalar R] [Amplitude R K] in
theorem Allocated.of_onlyPrinted {s₀ s : Session R K} (printed : OnlyPrinted s₀ s)
    (ready : Allocated n s₀) : Allocated n s := by
  rw [← printed] at ready
  exact ⟨ready.small, ready.size, ready.measured, ready.state, ready.report⟩

theorem conclude_inBounds :
    ⦃fun s => ⌜Allocated n s⌝⦄ (conclude : Run R K Unit) ⦃InBounds n fun _ => True⦄ := by
  mvcgen [conclude, reportState, emit, fail, finalListing_completes, marginalReport_completes] with
    grind [allocated_iff, Fault.kind, → Allocated.of_onlyPrinted, OnlyPrinted.push, OnlyPrinted.refl]

theorem conclude_error_kind {s s' : Session R K} {e : Fault} (ready : Allocated n s)
    (h : (conclude : Run R K Unit).run s = .error e s') : e.kind ≠ "IndexError" :=
  @run_error_of_triple _ _ _ conclude (fun s => Allocated n s) (fun _ s => Allocated n s ∧ True)
    (fun e _ => e.kind ≠ "IndexError") (@conclude_inBounds R K _ _ n) _ _ _ ready h

/-! ## The preparation -/

omit [RealScalar R] in
theorem fillUntilFault_fault {value : ℕ → Except Fault K} {a : Array K} {f : Fault}
    (h : (fillUntilFault value a).2 = some f) : ∃ k, value k = .error f := by
  unfold fillUntilFault at h
  -- once a fault is met it is carried to the end, and it is the fault of an entry
  refine foldl_invariant (fun acc : Array K × Option Fault => ∀ f, acc.2 = some f →
    ∃ k, value k = .error f) _ (fun acc k carried => ?_) (fun _ fresh => by simp at fresh) f h
  intro f' stopped
  obtain ⟨b, stop⟩ := acc
  cases stop with
  | none =>
    cases hk : value k with
    | ok x => simp [hk] at stopped
    | error f'' =>
      simp only [hk, Option.some.injEq] at stopped
      exact ⟨k, stopped ▸ hk⟩
  | some f'' => exact carried f' stopped

theorem modularEntry_noIndexError (modulus base : R) (k : ℕ) :
    NoIndexError (modularEntry (K := K) modulus base k) := by
  unfold modularEntry
  dsimp only
  split
  · rw [pure_bind]
    split
    · rw [throw_eq_error, error_bind]
      exact .error (by simp [Fault.kind])
    · exact .ok _
  · rw [throw_eq_error, error_bind]
    exact .error (by simp [Fault.kind])

theorem registerSize_error_kind {n : ℤ} {f : Fault} (h : registerSize n = .error f) :
    f.kind ≠ "IndexError" := by
  unfold registerSize at h
  split_ifs at h <;> cases h <;> simp [Fault.kind]

theorem prepare_allocates (g : Random.Twister) {s₁ : Session R K} (fresh : s₁.report = none) :
    ⦃fun s => ⌜s = s₁⌝⦄ (prepare g : Run R K Unit)
    ⦃post⟨fun _ s => ⌜Allocated s₁.size s⌝, fun e _ => ⌜e.kind ≠ "IndexError"⌝⟩⦄ := by
  have modular : ∀ (modulus base : R) (a : Array K) f,
      (fillUntilFault (modularEntry modulus base) a).2 = some f → f.kind ≠ "IndexError" := by
    intro modulus base a f h
    obtain ⟨k, hk⟩ := fillUntilFault_fault h
    exact modularEntry_noIndexError modulus base k f hk
  mvcgen [prepare, checkPrintable, emit, Script.ofExcept, setState, fail] with
    grind [allocated_iff, registerSize_ok, registerSize_small_of_ok, → nonzeroEntries_error,
      size_randomFill, size_fillUntilFault, size_normalize, size_zeros, Array.size_replicate,
      Array.size_setIfInBounds, Fault.kind, → allocated_nonempty, → registerSize_error_kind]

theorem prepare_error_kind (g : Random.Twister) {s₁ s : Session R K} {e : Fault}
    (fresh : s₁.report = none) (h : (prepare g).run s₁ = .error e s) : e.kind ≠ "IndexError" :=
  @run_error_of_triple _ _ _ (prepare g) (fun s => s = s₁) (fun _ s => Allocated s₁.size s)
    (fun e _ => e.kind ≠ "IndexError") (@prepare_allocates R K _ _ g s₁ fresh) _ _ _ rfl h

theorem prepare_allocated (g : Random.Twister) {s₁ s : Session R K} (fresh : s₁.report = none)
    (h : (prepare g).run s₁ = .ok () s) : Allocated s₁.size s :=
  run_ok_of_triple (@prepare_allocates R K _ _ g s₁ fresh) rfl h

/-! ## Whole runs -/

/-- A run whose first pass completes and which stops with an index error stopped in its second
pass, at a line `Sign s;` with `s` past the register: the preparation and every line before that
one returned. -/
theorem runProgram_indexError_at_sign (logarithm : Bool) (seed : ℤ) (text : String)
    {s₁ s : Session R K} {e : Fault}
    (surveyed : (firstPass (Text.fileLines text)).run Session.initial = .ok () s₁)
    (stopped : (runProgram logarithm seed text).run Session.initial = .error e s)
    (indexError : e.kind = "IndexError") :
    ∃ s₀ pre line post s₂,
      (prepare (Random.Twister.seeded seed)).run s₁ = .ok () s₀ ∧
      Text.fileLines text = pre ++ line :: post ∧
      (secondPass logarithm pre).run s₀ = .ok () s₂ ∧
      (perform logarithm line).run s₂ = .error e s ∧
      SignBeyond s₁.size line := by
  obtain ⟨⟨-, -, fresh⟩, fits⟩ :=
    run_ok_of_partial (firstPass_spec (Text.fileLines text) Session.initial) rfl surveyed
  rw [runProgram_after_firstPass surveyed] at stopped
  -- the preparation raises no index error, so it returned with the register allocated
  rcases run_bind_error stopped with failed | ⟨_, s₀, prepared, rest⟩
  · exact absurd indexError (prepare_error_kind _ fresh failed)
  have allocated : Allocated s₁.size s₀ := prepare_allocated _ fresh prepared
  rcases run_bind_error rest with second | ⟨_, s₂, passed, last⟩
  · -- the second pass stopped at one line, with the lines before it returned
    obtain ⟨pre, line, post, s₂, split, before, stops⟩ := secondPass_error second
    have earlier : ∀ l ∈ pre, LineFits s₁.size l :=
      fun l mem => fits l (split ▸ List.mem_append_left _ mem)
    have ready : Allocated s₁.size s₂ := secondPass_allocated earlier allocated before
    have member : line ∈ Text.fileLines text := by
      rw [split]
      simp
    exact ⟨s₀, pre, line, post, s₂, prepared, split, before, stops,
      perform_indexError (fits line member) ready stops indexError⟩
  · -- the final reports raise no index error either
    have ended : Allocated s₁.size s₂ := secondPass_allocated fits allocated passed
    exact absurd indexError (conclude_error_kind ended last)

theorem runProgram_indexError_at_sign_one : ∃ (s₁ s : Session ℝ ℂ) (e : Fault),
    (firstPass (Text.fileLines "Sign 1;\n")).run Session.initial = .ok () s₁ ∧
    (runProgram true 0 "Sign 1;\n").run Session.initial = .error e s ∧ e.kind = "IndexError" ∧
    ∃ s₀ pre line post s₂,
      (prepare (Random.Twister.seeded 0)).run s₁ = .ok () s₀ ∧
      Text.fileLines "Sign 1;\n" = pre ++ line :: post ∧
      (secondPass true pre).run s₀ = .ok () s₂ ∧
      (perform true line).run s₂ = .error e s ∧
      SignBeyond s₁.size line := by
  -- the first pass runs on texts and integers only, so the kernel evaluates it
  obtain ⟨_, s₁, surveyed, checked⟩ := @exists_ok_of_check Fault (Session ℝ ℂ) Unit
    (fun s => decide (s.size = 0) && match s.start with | .ground => true | _ => false)
    ((firstPass (Text.fileLines "Sign 1;\n") : Run ℝ ℂ Unit).run Session.initial)
    (by decide +kernel)
  have empty : s₁.size = 0 := by simp_all
  have ground : s₁.start = .ground := by
    cases start : s₁.start <;> simp_all
  obtain ⟨⟨-, -, fresh⟩, -⟩ :=
    run_ok_of_partial (firstPass_spec (Text.fileLines "Sign 1;\n") Session.initial) rfl surveyed
  obtain ⟨s₀, prepared⟩ := prepare_ground_ok (Random.Twister.seeded 0) ground (by omega)
  have allocated : Allocated 0 s₀ := by
    have sized := prepare_allocated _ fresh prepared
    rwa [empty] at sized
  have lines : Text.fileLines "Sign 1;\n" = ["Sign 1;"] := by decide +kernel
  have word : lineWord "Sign 1;" = "Sign" := by decide +kernel
  have read : operands "Sign 1;" = .ok ⟨1, 1, -1, -1⟩ := by
    have checked : (operands "Sign 1;").toOption = some ⟨1, 1, -1, -1⟩ := by decide +kernel
    cases h : operands "Sign 1;" <;> simp_all [Except.toOption]
  obtain ⟨s, stops⟩ := @perform_sign_error ℝ ℂ _ _ 0 true "Sign 1;" ⟨1, 1, -1, -1⟩ word read
    (by norm_num) (by norm_num) s₀ allocated
  have stopped : (runProgram true 0 "Sign 1;\n").run Session.initial =
      .error (.indexOutOfBounds 1 (2 ^ 0)) s := by
    rw [runProgram_run surveyed prepared, lines, secondPass_cons]
    exact run_bind_of_error (run_bind_of_error stops)
  exact ⟨s₁, s, _, surveyed, stopped, rfl,
    runProgram_indexError_at_sign true 0 "Sign 1;\n" surveyed stopped rfl⟩

end Qubits.Script
