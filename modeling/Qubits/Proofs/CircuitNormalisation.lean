import Qubits.Proofs.CommandReading
import Qubits.Proofs.CircuitRefinement
import Qubits.Proofs.Normalisation

/-!
# The circuit runner keeps a unit vector

Over exact arithmetic, every command of the circuit runner keeps its register a unit vector of
the register's size: `init` makes a fresh register in `|0…0⟩`, a Hadamard or Pauli X gate on a
qubit of the register is unitary, and a skipped command changes nothing (`act_keeps_unitVector`).
The only way a command can fail on such a register is an `init` of 59 or more qubits, whose
`2^n` amplitudes cannot be allocated.

So a run whose commands respect their register (`RespectsRegister`: every `init` asks for zero
or more qubits, and every gate names a qubit of the register in force) has a unit vector after
every command, and it either returns the register, the state and probabilities `|a_j|²` that sum
to one, or stops at such an allocation (`run_keeps_unit_state`).
-/

namespace Qubits.Circuit

open Gate StateVector Finset

/-- Whether a command can be carried out on a register of `n` qubits: `init` asks for zero or
more qubits, and a gate names a qubit of the register. -/
def Command.Fits : Command → ℕ → Prop
  | .init size, _ => 0 ≤ size
  | .gate _ q, n => 0 ≤ q ∧ q < n
  | .skip, _ => True

instance (cmd : Command) (n : ℕ) : Decidable (cmd.Fits n) :=
  match cmd with
  | .init size => inferInstanceAs (Decidable (0 ≤ size))
  | .gate _ q => inferInstanceAs (Decidable (0 ≤ q ∧ q < n))
  | .skip => inferInstanceAs (Decidable True)

def Command.sizeAfter : Command → ℕ → ℕ
  | .init size, _ => size.toNat
  | _, n => n

/-- Every command of a list fits the register in force when it runs, the first one a register
of `n` qubits. -/
def RespectsRegister : ℕ → List String → Prop
  | _, [] => True
  | n, c :: cs => (readCommand c).Fits n ∧ RespectsRegister ((readCommand c).sizeAfter n) cs

theorem RespectsRegister.take {n : ℕ} {cs : List String} (respects : RespectsRegister n cs)
    (k : ℕ) : RespectsRegister n (cs.take k) := by
  induction cs generalizing n k with
  | nil => simpa using respects
  | cons c cs ih =>
    cases k with
    | zero => trivial
    | succ k => exact ⟨respects.1, ih respects.2 k⟩

theorem act_keeps_unitVector {cmd : Command} {n : ℕ} {a : Array ℂ} (small : n < 59)
    (unit : UnitVector n a) (fits : cmd.Fits n) :
    (∃ reg, cmd.act (R := ℝ) (n, a) = .ok reg ∧ reg.1 = cmd.sizeAfter n ∧ reg.1 < 59 ∧
        UnitVector reg.1 reg.2) ∨
      ∃ e, cmd.act (R := ℝ) (n, a) = .error e ∧ AllocationFault e ∧
        ∃ m : ℤ, 59 ≤ m ∧ cmd = .init m := by
  cases cmd with
  | init size =>
    by_cases small : size < 59
    · lift size to ℕ using fits
      exact .inl ⟨_, ground_small (by omega), rfl, by omega, Script.unitVector_ground size⟩
    · obtain ⟨e, refused, fault⟩ := registerSize_large (by omega : 59 ≤ size)
      exact .inr ⟨e, ground_error refused, fault, size, by omega, rfl⟩
  | gate g q =>
    obtain ⟨nonneg, inside⟩ := fits
    lift q to ℕ using nonneg
    have applied := g.apply_eq (by omega : q < n) unit.1
    have kept := g.unitVector_apply (by omega : q < n) unit applied
    refine .inl ⟨(n, _), ?_, rfl, small, kept⟩
    simp only [Command.act, applyGate_of_small g small, applied]
    rfl
  | skip => exact .inl ⟨(n, a), rfl, rfl, small, unit⟩

theorem foldlM_step_keeps_unitVector {cs : List String} {n : ℕ} {a : Array ℂ} (small : n < 59)
    (unit : UnitVector n a) (respects : RespectsRegister n cs) :
    (∃ reg, cs.foldlM (step (R := ℝ)) (n, a) = .ok reg ∧ UnitVector reg.1 reg.2) ∨
      ∃ e, cs.foldlM (step (R := ℝ)) (n, a) = .error e ∧ AllocationFault e ∧
        ∃ c ∈ cs, ∃ m : ℤ, 59 ≤ m ∧ readCommand c = .init m := by
  induction cs generalizing n a with
  | nil => exact .inl ⟨(n, a), rfl, unit⟩
  | cons c cs ih =>
    rw [List.foldlM_cons, step_eq_act]
    rcases act_keeps_unitVector small unit respects.1 with
      ⟨⟨n', a'⟩, acted, size, small', unit'⟩ | ⟨e, acted, fault, m, large, init⟩
    · -- the rest of the commands start from the register the first one leaves
      simp only at size small' unit'
      rw [acted, ok_bind]
      rcases ih small' unit' (size ▸ respects.2) with
        done | ⟨e, stopped, fault, c', mem, m, large, init⟩
      · exact .inl done
      · exact .inr ⟨e, stopped, fault, c', List.mem_cons_of_mem c mem, m, large, init⟩
    · rw [acted]
      exact .inr ⟨e, rfl, fault, c, List.mem_cons_self, m, large, init⟩

theorem probabilities_eq (a : Array ℂ) : probabilities a = a.map fun x => ‖x‖ ^ 2 := by
  simp [probabilities, sq]

theorem sum_probabilities {n : ℕ} {a : Array ℂ} (unit : UnitVector n a) :
    (probabilities a).toList.sum = 1 := by
  have listed : a.toList = (List.range a.size).map (amp a) := by
    conv_lhs => rw [← tabulate_amp (a := a) rfl]
    exact toList_tabulate _ _
  rw [probabilities_eq, Array.toList_map, listed, List.map_map, sum_map_range]
  exact unit.2

/-- The circuit runner keeps a normalised state of the declared size, over exact arithmetic.
Take commands in which every `init` asks for zero or more qubits and every `h` or `x` names a
qubit of the register in force, starting from one qubit. After every command the runner
completes, the register of `n` qubits holds `2^n` amplitudes whose squared moduli sum to one.
The run either returns the register size, a state of `2^size` amplitudes and the probabilities
`|a_j|²`, which sum to one, or stops at an `init` of 59 or more qubits, whose amplitudes cannot
be allocated. -/
theorem run_keeps_unit_state {commands : List String} (respects : RespectsRegister 1 commands) :
    (∀ k reg, (ground (K := ℂ) 1 >>= (commands.take k).foldlM (step (R := ℝ))) = .ok reg →
      UnitVector reg.1 reg.2) ∧
    ((∃ o : Outcome ℝ ℂ, run commands = .ok o ∧ o.state.size = 2 ^ o.size ∧
        o.probabilities = o.state.map (fun x => ‖x‖ ^ 2) ∧ o.probabilities.toList.sum = 1) ∨
      ∃ e, run (R := ℝ) (K := ℂ) commands = .error e ∧ AllocationFault e ∧
        ∃ c ∈ commands, ∃ m : ℤ, 59 ≤ m ∧ readCommand c = .init m) := by
  have start : ground (K := ℂ) 1 = .ok (1, _) := ground_small (by norm_num)
  have unit := Script.unitVector_ground 1
  refine ⟨fun k reg ran => ?_, ?_⟩
  · -- a prefix of the commands respects the register as well
    rw [start, ok_bind] at ran
    rcases foldlM_step_keeps_unitVector (by norm_num) unit (respects.take k) with
      ⟨reg', done, unit'⟩ | ⟨e, stopped, -⟩
    · rw [done, Except.ok.injEq] at ran
      exact ran ▸ unit'
    · rw [stopped] at ran
      cases ran
  · unfold run
    rw [start, ok_bind]
    rcases foldlM_step_keeps_unitVector (by norm_num) unit respects with
      ⟨⟨n, a⟩, done, unit'⟩ | ⟨e, stopped, rest⟩
    · exact .inl ⟨⟨n, a, probabilities a⟩, by rw [done]; rfl, unit'.1, probabilities_eq a,
        sum_probabilities unit'⟩
    · exact .inr ⟨e, by rw [stopped]; rfl, rest⟩

theorem run_keeps_unit_state_two_qubits :
    RespectsRegister 1 ["init 2", "h 0", "x 1"] ∧
    (∀ k reg, (ground (K := ℂ) 1 >>= (["init 2", "h 0", "x 1"].take k).foldlM (step (R := ℝ))) =
      .ok reg → UnitVector reg.1 reg.2) := by
  have respects : RespectsRegister 1 ["init 2", "h 0", "x 1"] := by
    refine ⟨?_, ?_, ?_, trivial⟩ <;> decide +kernel
  exact ⟨respects, (run_keeps_unit_state respects).1⟩

end Qubits.Circuit
