import Qubits.Proofs.RangeDirection
import Qubits.Proofs.CommandText
import Qubits.Proofs.CommandSyntax

/-!
# The circuit runner and the script agree

The circuit runner reads the commands `init n`, `h k` and `x k`; the script reads a program
whose first pass sizes the register from the qubits its lines name. Both apply the same gate
kernels, so a circuit of Hadamard and Pauli X gates, written for either front end, ends in the
same state, in any arithmetic (`run_agrees_with_runProgram`).

On the script's side, a line `g q[k];` applies the gate's kernel to the qubit
(`perform_qubitCommand_run`), a case of the kernel run of a gate line over a range
(`perform_gate_applies`). The first pass over a circuit's program sizes the register to the
circuit (`firstPass_linesOfGates`), the preparation sets the ground state (`prepare_ground_state`)
and the final reports only print (`conclude_state`). On the runner's side, each gate command
applies its kernel (`foldlM_step_gates`).
-/

namespace Qubits.Script

open Std.Do Gate StateVector

set_option mvcgen.warning false

variable {R K : Type} [RealScalar R] [Amplitude R K]

/-! ## Lines of one-qubit gates -/

theorem foldlM_qubitRange_self (g : OneQubit) (n : ℕ) (q : ℤ) (a : Array K) :
    (qubitRange q q).foldlM (fun c q => g.apply n q c) a = g.apply n q a := by
  have single : qubitRange q q = [q] := by simp [qubitRange]
  simp only [single, List.foldlM_cons, List.foldlM_nil, bind_pure]

section Lines

variable {n : ℕ}

theorem perform_identity_run (logarithm : Bool) {line : String} {i f : ℤ}
    (reads : ReadsRange "id" i f line) (s : Session R K) :
    (perform logarithm line).run s = .ok () s := by
  obtain ⟨named, o, ho, -, -⟩ := reads
  unfold perform operandsOf
  rw [named, ho]
  simp +decide only [ite_true, ite_false, false_and]
  rfl

theorem readsRange_qubitCommand {w : String} (plain : PlainWord w)
    (ranged : w ∉ ["cx", "sk", "csk", "N&m"]) (k : ℕ) : ReadsRange w k k (qubitCommand w k) :=
  ⟨lineWord_qubitCommand plain k, _, operands_qubitCommand plain ranged k, rfl, rfl⟩

theorem perform_qubitCommand_run (logarithm : Bool) (g : OneQubit) {k : ℕ} (hk : k < n)
    {s : Session R K} {a : Array K} (ready : Allocated n s) (current : s.state = some a) :
    ∃ s', (perform logarithm (qubitCommand (wordOfGate g) k)).run s = .ok () s' ∧
      Allocated n s' ∧ ∃ b, s'.state = some b ∧ g.apply n k a = .ok b := by
  have reads := readsRange_qubitCommand (plainWord_wordOfGate g) (wordOfGate_ranged g) k
  by_cases identity : g = .id
  · subst identity
    exact ⟨s, perform_identity_run logarithm reads s, ready, a, current, rfl⟩
  · obtain ⟨s', run, ready', b, state, applied⟩ :=
      perform_gate_applies logarithm (gateOfWord_wordOfGate identity) reads hk hk ready current
    rw [foldlM_qubitRange_self] at applied
    exact ⟨s', run, ready', b, state, applied⟩

theorem secondPass_qubitCommands_run (logarithm : Bool) {gates : List (OneQubit × ℕ)}
    (inside : ∀ p ∈ gates, p.2 < n) {s : Session R K} {a : Array K} (ready : Allocated n s)
    (current : s.state = some a) :
    ∃ s', (secondPass logarithm (gates.map fun p => qubitCommand (wordOfGate p.1) p.2)).run s =
      .ok () s' ∧ Allocated n s' ∧ ∃ b, s'.state = some b ∧
        gates.foldlM (fun b p => p.1.apply n p.2 b) a = .ok b := by
  induction gates generalizing s a with
  | nil => exact ⟨s, rfl, ready, a, current, rfl⟩
  | cons p gates ih =>
    obtain ⟨s₁, first, ready₁, b, state₁, applied⟩ :=
      perform_qubitCommand_run logarithm p.1 (inside p (by simp)) ready current
    obtain ⟨s', rest, ready', c, state', folded⟩ :=
      ih (fun p' mem => inside p' (by simp [mem])) ready₁ state₁
    refine ⟨s', ?_, ready', c, state', ?_⟩
    · rw [List.map_cons, secondPass_cons_run first, rest]
    · rw [List.foldlM_cons, applied, ok_bind, folded]

end Lines

/-! ## The first pass, the preparation and the final reports -/

omit [Amplitude R K] in
theorem firstPass_cons (line : String) (lines : List String) :
    (firstPass (line :: lines) : Run R K Unit) = (survey line >>= fun _ => firstPass lines) := by
  simp [firstPass]

omit [Amplitude R K] in
theorem survey_run_sizing {line : String} {o : Operands}
    (sizing : lineWord line ∈ sizingWords) (reads : operands line = .ok o) (s : Session R K) :
    (survey line).run s = .ok ()
      { s with size := max (max s.size (o.controlFrom + 1).toNat) (o.controlTo + 1).toNat } := by
  unfold survey operandsOf
  rw [if_pos (List.elem_iff.mpr sizing), reads]
  rfl

omit [Amplitude R K] in
theorem firstPass_qubitCommands_run {gates : List (OneQubit × ℕ)} {s : Session R K}
    (inside : ∀ p ∈ gates, p.2 < s.size) :
    (firstPass (gates.map fun p => qubitCommand (wordOfGate p.1) p.2)).run s = .ok () s := by
  induction gates with
  | nil => rfl
  | cons p gates ih =>
    have sizing : lineWord (qubitCommand (wordOfGate p.1) p.2) ∈ sizingWords := by
      rw [lineWord_qubitCommand (plainWord_wordOfGate p.1)]
      exact wordOfGate_mem_sizingWords p.1
    have sized := survey_run_sizing sizing
      (operands_qubitCommand (plainWord_wordOfGate p.1) (wordOfGate_ranged p.1) p.2) s
    have within := inside p (by simp)
    have same : max (max s.size ((p.2 : ℤ) + 1).toNat) ((p.2 : ℤ) + 1).toNat = s.size := by
      omega
    rw [same] at sized
    rw [List.map_cons, firstPass_cons, run_bind_of_ok sized]
    exact ih fun p' mem => inside p' (by simp [mem])

theorem prepare_ground_state (g : Random.Twister) {s₁ : Session R K}
    (grounded : s₁.start = .ground) (small : s₁.size < 59) :
    ⦃fun s => ⌜s = s₁⌝⦄ (prepare g : Run R K Unit)
    ⦃⇓ _ s => ⌜s.state = some
      ((zeros (2 ^ s₁.size)).setIfInBounds 0 (Amplitude.ofReal (RealScalar.ofInt 1)))⌝⦄ := by
  mvcgen -trivial [prepare, checkPrintable, emit, Script.ofExcept, setState, fail] with
    grind [ExceptConds.false, registerSize_small, → registerSize_ok, allocatable_printable,
      Int.natAbs_natCast, → nonzeroEntries_error, → allocated_nonempty, Array.size_setIfInBounds,
      size_zeros]

theorem prepare_refused (g : Random.Twister) {s₁ : Session R K} {e : Fault}
    (refused : registerSize s₁.size = .error e) :
    ⦃fun s => ⌜s = s₁⌝⦄ (prepare g : Run R K Unit)
    ⦃post⟨fun _ _ => ⌜False⌝,
      fun e' s => ⌜s.state = s₁.state ∧ (s₁.size < 10 ^ Text.maxIntDigits → e' = e)⌝⟩⦄ := by
  mvcgen -trivial [prepare, checkPrintable, emit, Script.ofExcept, fail] with
    grind [Int.natAbs_natCast, Nat.pow_eq]

theorem conclude_state (st : Option (Array K)) :
    ⦃fun s => ⌜s.state = st⌝⦄ (conclude : Run R K Unit)
    ⦃post⟨fun _ s => ⌜s.state = st⌝, fun _ s => ⌜s.state = st⌝⟩⦄ := by
  mvcgen [conclude_prints] with grind [OnlyPrinted.state, OnlyPrinted.refl]

/-! ## A circuit as a program -/

/-- The lines of the program of a circuit of the gates `gates` on `n` qubits: `id q[n-1];`, which
sizes the register, then `g q[k];` for each gate `g` on qubit `k`. -/
def linesOfGates (n : ℕ) (gates : List (OneQubit × ℕ)) : List String :=
  qubitCommand "id" (n - 1) :: gates.map fun p => qubitCommand (wordOfGate p.1) p.2

def programOfGates (n : ℕ) (gates : List (OneQubit × ℕ)) : String :=
  Text.fileOfLines (linesOfGates n gates)

theorem fileLines_programOfGates (n : ℕ) (gates : List (OneQubit × ℕ)) :
    Text.fileLines (programOfGates n gates) = linesOfGates n gates := by
  apply Text.fileLines_fileOfLines
  intro line mem
  simp only [linesOfGates, List.mem_cons, List.mem_map] at mem
  rcases mem with rfl | ⟨p, -, rfl⟩
  · exact qubitCommand_no_break (by decide +kernel) _
  · exact qubitCommand_no_break (plainWord_wordOfGate p.1) _

omit [Amplitude R K] in
theorem firstPass_linesOfGates {n : ℕ} (hn : 0 < n) {gates : List (OneQubit × ℕ)}
    (inside : ∀ p ∈ gates, p.2 < n) :
    (firstPass (linesOfGates n gates)).run (Session.initial : Session R K) =
      .ok () { Session.initial with size := n } := by
  have plain : PlainWord "id" := by decide +kernel
  have sizing : lineWord (qubitCommand "id" (n - 1)) ∈ sizingWords := by
    rw [lineWord_qubitCommand plain]
    decide
  have sized := survey_run_sizing (R := R) (K := K) sizing
    (operands_qubitCommand plain (by decide) (n - 1)) Session.initial
  have reach : max (max (Session.initial : Session R K).size (((n - 1 : ℕ) : ℤ) + 1).toNat)
      (((n - 1 : ℕ) : ℤ) + 1).toNat = n := by
    simp only [Session.initial]
    omega
  rw [reach] at sized
  rw [linesOfGates, firstPass_cons, run_bind_of_ok sized]
  exact firstPass_qubitCommands_run inside

theorem runProgram_programOfGates_refused (logarithm : Bool) (seed : ℤ) {n : ℕ} (hn : 0 < n)
    {gates : List (OneQubit × ℕ)} (inside : ∀ p ∈ gates, p.2 < n) {e : Fault}
    (refused : registerSize (n : ℤ) = .error e) :
    ∃ e' s, (runProgram logarithm seed (programOfGates n gates) : Run R K Unit).run
        Session.initial = .error e' s ∧ s.state = none ∧ (n < 10 ^ Text.maxIntDigits → e' = e) := by
  have surveyed := firstPass_linesOfGates (R := R) (K := K) hn inside
  rw [← fileLines_programOfGates] at surveyed
  have stops := @prepare_refused R K _ _ (Random.Twister.seeded seed)
    { Session.initial with size := n } e refused
  -- the preparation is named, so that matching the triple does not unfold it
  generalize named : (prepare (Random.Twister.seeded seed) : Run R K Unit) = x at stops
  have ends := triple_iff.mp stops _ rfl
  cases ran : x.run { Session.initial with size := n } with
  | ok _ _ =>
    rw [ran] at ends
    exact ends.elim
  | error e' s =>
    rw [ran] at ends
    rw [← named] at ran
    exact ⟨e', s, by rw [runProgram_after_firstPass surveyed, run_bind_of_error ran], ends⟩

end Qubits.Script

namespace Qubits.Circuit

open Script StateVector Gate

variable {R K : Type} [RealScalar R] [Amplitude R K]

/-! ## A circuit as commands -/

theorem ground_small {n : ℕ} (small : n < 59) :
    ground (K := K) n =
      .ok (n, (zeros (2 ^ n)).setIfInBounds 0 (Amplitude.ofReal (RealScalar.ofInt 1))) := by
  simp [ground, Script.registerSize_small small]

theorem ground_error {n : ℤ} {e : Fault} (refused : registerSize n = .error e) :
    ground (K := K) n = .error e := by
  simp [ground, refused]

def AllocationFault (e : Fault) : Prop := e = .arrayTooBig ∨ e = .dimensionTooLarge

theorem registerSize_large {n : ℤ} (large : 59 ≤ n) :
    ∃ e, registerSize n = .error e ∧ AllocationFault e := by
  unfold registerSize
  rw [if_neg (by omega)]
  split_ifs
  · exact ⟨_, rfl, .inr rfl⟩
  · exact ⟨_, rfl, .inl rfl⟩

theorem applyGate_of_small (g : OneQubit) {n : ℕ} (small : n < 59) (q : ℤ) (a : Array K) :
    applyGate g n q a = g.apply n q a := by
  simp [applyGate, Script.registerSize_small small]

/-- The commands of a circuit of the gates `gates` on `n` qubits: `init n`, then `g k` for each
gate `g` on qubit `k`. -/
def commandsOfGates (n : ℕ) (gates : List (OneQubit × ℕ)) : List String :=
  numberCommand "init" n :: gates.map fun p => numberCommand (wordOfGate p.1) p.2

-- `init n` reads `n` back when it has at most `maxIntDigits` digits, and falls back to one qubit
theorem step_init (reg : ℕ × Array K) (n : ℕ) :
    step reg (numberCommand "init" n) =
      ground (if n < 10 ^ Text.maxIntDigits then (n : ℤ) else 1) := by
  unfold step
  rw [words_numberCommand (by decide +kernel) n]
  split_ifs with printable
  · simp only [argument, Text.readInt_toString printable]
    simp [isWord, foldCase, Except.toOption]
  · simp only [argument, readInt_toString_of_le (not_lt.mp printable)]
    simp [isWord, foldCase, Except.toOption]

theorem step_gate (reg : ℕ × Array K) (small : reg.1 < 59) {g : OneQubit}
    (kind : g = .h ∨ g = .x) {k : ℕ} (printable : k < 10 ^ Text.maxIntDigits) :
    step reg (numberCommand (wordOfGate g) k) =
      (fun b => (reg.1, b)) <$> g.apply reg.1 k reg.2 := by
  unfold step
  rw [words_numberCommand (plainWord_wordOfGate g) k]
  simp only [argument, Text.readInt_toString printable, applyGate_of_small _ small]
  rcases kind with rfl | rfl <;>
    simp [isWord, foldCase, wordOfGate, OneQubit.apply, Except.toOption]
  all_goals (rw [map_eq_pure_bind]; rfl)

theorem foldlM_step_gates {n : ℕ} (small : n < 59) {gates : List (OneQubit × ℕ)}
    (kinds : ∀ p ∈ gates, p.1 = .h ∨ p.1 = .x)
    (printable : ∀ p ∈ gates, p.2 < 10 ^ Text.maxIntDigits) (a : Array K) :
    (gates.map fun p => numberCommand (wordOfGate p.1) p.2).foldlM step (n, a) =
      (fun b => (n, b)) <$> gates.foldlM (fun b p => p.1.apply n p.2 b) a := by
  induction gates generalizing a with
  | nil => rfl
  | cons p gates ih =>
    have rest := ih (fun p' mem => kinds p' (by simp [mem]))
      (fun p' mem => printable p' (by simp [mem]))
    rw [List.map_cons, List.foldlM_cons, List.foldlM_cons,
      step_gate (n, a) small (kinds p (by simp)) (printable p (by simp))]
    cases p.1.apply n p.2 a with
    | error e => rfl
    | ok b => exact rest b

-- the runner's own first register is replaced at once by the one `init` asks for
theorem run_commandsOfGates (n : ℕ) (gates : List (OneQubit × ℕ)) :
    run (R := R) (K := K) (commandsOfGates n gates) =
      ground (if n < 10 ^ Text.maxIntDigits then (n : ℤ) else 1) >>= fun reg =>
        (gates.map fun p => numberCommand (wordOfGate p.1) p.2).foldlM step reg >>= fun reg =>
          pure ⟨reg.1, reg.2, probabilities reg.2⟩ := by
  have first : ground (K := K) 1 = .ok (1, _) := ground_small (by norm_num)
  unfold run commandsOfGates
  rw [first, ok_bind, List.foldlM_cons, step_init, bind_assoc]

theorem run_commandsOfGates_refused {n : ℕ} (gates : List (OneQubit × ℕ)) {e : Fault}
    (refused : registerSize (n : ℤ) = .error e) (printable : n < 10 ^ Text.maxIntDigits) :
    run (R := R) (K := K) (commandsOfGates n gates) = .error e := by
  rw [run_commandsOfGates, if_pos printable, ground_error refused]
  rfl

/-! ## The two front ends agree -/

/-- The circuit runner and the script compute the same state, in any arithmetic. Take a circuit
of Hadamard and Pauli X gates on qubits of a register of `n ≥ 1` qubits. The runner, given
`init n` and then `g k` for each gate, and the script, given `id q[n-1];` and then `g q[k];` for
each gate, both start from the ground state and apply the gates' kernels in turn; on one qubit
the script's `h q[0];` takes the path of the Hadamard gate on every qubit, which is the same
computation. So below 59 qubits the runner returns the register and the state the kernels give,
and the script ends with that state, whichever seed and `sk` setting it runs with. From 59
qubits on, the script stops before it has a state, and the runner stops with the same fault when
the register size is short enough to be read back. -/
theorem run_agrees_with_runProgram (logarithm : Bool) (seed : ℤ) {n : ℕ} (hn : 0 < n)
    {gates : List (OneQubit × ℕ)} (kinds : ∀ p ∈ gates, p.1 = .h ∨ p.1 = .x)
    (inside : ∀ p ∈ gates, p.2 < n) :
    (n < 59 → ∃ a₀ a : Array K, ground n = .ok (n, a₀) ∧
      gates.foldlM (fun b p => p.1.apply n p.2 b) a₀ = .ok a ∧
      run (R := R) (commandsOfGates n gates) = .ok ⟨n, a, probabilities a⟩ ∧
      (endSession ((runProgram logarithm seed (programOfGates n gates) : Run R K Unit).run
        Session.initial)).state = some a) ∧
    (59 ≤ n → ∃ e s, (runProgram logarithm seed (programOfGates n gates) : Run R K Unit).run
        Session.initial = .error e s ∧ s.state = none ∧
      (n < 10 ^ Text.maxIntDigits →
        run (R := R) (K := K) (commandsOfGates n gates) = .error e)) := by
  have surveyed := firstPass_linesOfGates (R := R) (K := K) hn inside
  rw [← fileLines_programOfGates] at surveyed
  refine ⟨fun small => ?_, fun large => ?_⟩
  · have printable : n < 10 ^ Text.maxIntDigits := by
      have bound := allocatable_printable
      rw [Nat.pow_eq] at bound
      omega
    -- the script prepares the ground state, keeps it through `id`, and applies the gates
    have start : ({ Session.initial with size := n } : Session R K).start = .ground := rfl
    have sized : ({ Session.initial with size := n } : Session R K).size < 59 := small
    have grounded := @prepare_ground_state R K _ _ (Random.Twister.seeded seed) _ start sized
    -- the preparation is named, so that matching the triple does not unfold it
    generalize named : (prepare (Random.Twister.seeded seed) : Run R K Unit) = x at grounded
    obtain ⟨⟨⟩, s₀, prepared, state₀⟩ := exists_run_ok grounded rfl
    rw [← named] at prepared
    have ready₀ : Allocated n s₀ := prepare_allocated _ rfl prepared
    obtain ⟨s₂, gatesRun, -, a, state₂, folded⟩ :=
      secondPass_qubitCommands_run logarithm inside ready₀ state₀
    have passed : (secondPass logarithm (linesOfGates n gates)).run s₀ = .ok () s₂ := by
      rw [linesOfGates, secondPass_cons_run (perform_identity_run logarithm
        (readsRange_qubitCommand (by decide +kernel) (by decide) (n - 1)) s₀)]
      exact gatesRun
    refine ⟨_, a, ground_small small, folded, ?_, ?_⟩
    · rw [run_commandsOfGates, if_pos printable, ground_small small, ok_bind,
        foldlM_step_gates small kinds (fun p mem => (inside p mem).trans printable), folded]
      rfl
    · rw [runProgram_run surveyed prepared, fileLines_programOfGates, run_bind_of_ok passed]
      exact (endSession_of_triple (conclude_state s₂.state) rfl).trans state₂
  · -- the register cannot be allocated, and both runs stop at the allocation
    obtain ⟨e, refused, -⟩ := registerSize_large (by omega : (59 : ℤ) ≤ n)
    obtain ⟨e', s, stopped, none, same⟩ :=
      runProgram_programOfGates_refused (R := R) (K := K) logarithm seed hn inside refused
    refine ⟨e', s, stopped, none, fun printable => ?_⟩
    rw [same printable]
    exact run_commandsOfGates_refused gates refused printable

theorem run_agrees_with_runProgram_hadamard :
    (∀ p ∈ [(OneQubit.h, 0)], p.1 = .h ∨ p.1 = .x) ∧ (∀ p ∈ [(OneQubit.h, 0)], p.2 < 1) ∧
    ∃ a : Array ℂ, run (R := ℝ) (commandsOfGates 1 [(.h, 0)]) = .ok ⟨1, a, probabilities a⟩ ∧
      (endSession ((runProgram true 0 (programOfGates 1 [(.h, 0)]) : Run ℝ ℂ Unit).run
        Session.initial)).state = some a := by
  have kinds : ∀ p ∈ [(OneQubit.h, 0)], p.1 = .h ∨ p.1 = .x := by simp
  have inside : ∀ p ∈ [(OneQubit.h, 0)], p.2 < 1 := by simp
  obtain ⟨-, a, -, -, ran, ended⟩ :=
    (run_agrees_with_runProgram (R := ℝ) (K := ℂ) true 0 one_pos kinds inside).1 (by norm_num)
  exact ⟨kinds, inside, a, ran, ended⟩

/-- The two front ends have no state in common once the register cannot be allocated. At 59
qubits neither returns a state. At `10 ^ 4300` qubits, a size of 4301 digits, the runner cannot
read the size and returns one qubit in `|0⟩`, while the script, which reads the qubit of `id` digit
by digit, sizes the register to it and stops before it has a state. -/
theorem run_no_common_state_beyond_allocation :
    (∃ e, run (R := ℝ) (K := ℂ) (commandsOfGates 59 []) = .error e) ∧
    (∃ e s, (runProgram true 0 (programOfGates 59 []) : Run ℝ ℂ Unit).run Session.initial =
      .error e s ∧ s.state = none) ∧
    run (R := ℝ) (K := ℂ) (commandsOfGates (10 ^ 4300) []) = .ok ⟨1, #[1, 0], #[1, 0]⟩ ∧
    (∃ e s, (runProgram true 0 (programOfGates (10 ^ 4300) []) : Run ℝ ℂ Unit).run
      Session.initial = .error e s ∧ s.state = none) := by
  have beyond : 59 ≤ 10 ^ 4300 := allocatable_printable
  have printable : 59 < 10 ^ Text.maxIntDigits :=
    lt_of_lt_of_le (by norm_num) (Nat.pow_le_pow_right (by norm_num) (by decide : 2 ≤ Text.maxIntDigits))
  obtain ⟨e, refused, -⟩ := registerSize_large (by norm_num : (59 : ℤ) ≤ ((59 : ℕ) : ℤ))
  obtain ⟨e', refused', -⟩ :=
    registerSize_large (by exact_mod_cast beyond : (59 : ℤ) ≤ ((10 ^ 4300 : ℕ) : ℤ))
  have noGates : ∀ n : ℕ, ∀ p ∈ ([] : List (OneQubit × ℕ)), p.2 < n := fun _ _ mem => nomatch mem
  obtain ⟨e₁, s₁, stopped, none, -⟩ := runProgram_programOfGates_refused (R := ℝ) (K := ℂ) true 0
    (by norm_num) (noGates 59) refused
  obtain ⟨e₂, s₂, stopped', none', -⟩ := runProgram_programOfGates_refused (R := ℝ) (K := ℂ) true 0
    (by positivity) (noGates _) refused'
  refine ⟨⟨e, run_commandsOfGates_refused [] refused printable⟩, ⟨e₁, s₁, stopped, none⟩, ?_,
    ⟨e₂, s₂, stopped', none'⟩⟩
  -- the runner's one qubit is `|0⟩`, of probabilities `1` and `0`
  have first : ground (K := ℂ) 1 = .ok (1, #[1, 0]) := by
    refine (ground_small (n := 1) (by norm_num)).trans ?_
    simp only [zeros, Exact.zero_eq, Exact.ofInt_eq, Exact.ofReal_eq, Int.cast_one,
      Complex.ofReal_one]
    rfl
  have certain : probabilities (R := ℝ) #[(1 : ℂ), 0] = #[1, 0] := by
    simp [probabilities]
  have unreadable : ¬ 10 ^ 4300 < 10 ^ Text.maxIntDigits := lt_irrefl _
  rw [run_commandsOfGates, if_neg unreadable, first, ok_bind, List.map_nil, List.foldlM_nil,
    pure_bind, certain]
  rfl

end Qubits.Circuit
