import Qubits.Proofs.WalshHadamard
import Qubits.Proofs.FourierRoundTrip
import Qubits.Proofs.SessionInvariant

/-!
# The direction of a range

A line over a range of qubits `a:b` runs its gate once per qubit, upwards from `a` to `b` when
`b ≥ a` and downwards otherwise, and the Hadamard gate over the whole register written upwards
takes a path of its own (`hadamardAllStep`), which computes the same fold of kernels
(`hadamardAll_eq_foldlM`). Each of these runs applies the gate's kernel to each qubit of the range
in turn (`perform_gate_ok`), which over exact arithmetic is one matrix on each qubit in turn
(`foldlM_qubitRange_apply`); or it marks each qubit (`perform_measure_marks`), or applies one
controlled NOT per qubit (`perform_cx_exact`).

Written the other way round, a range lists the same qubits in the reverse order
(`qubitRange_reverse`), and the steps on them commute: one matrix on two qubits, two marks, two
controlled NOTs that share a target or a control and never meet it. So the direction of a range
never changes what a line does to the state (`perform_range_reversed`).
-/

namespace Qubits.Script

open Std.Do Gate StateVector

set_option mvcgen.warning false

/-! ## Ranges written both ways -/

theorem qubitRange_reverse_of_lt {i f : ℤ} (lt : i < f) :
    (qubitRange i f).reverse = qubitRange f i := by
  unfold qubitRange
  rw [if_pos lt.le, if_neg (not_le.mpr lt)]
  apply List.ext_getElem (by simp)
  intro k h₁ _
  simp only [List.length_reverse, List.length_map, List.length_range] at h₁
  simp
  omega

theorem qubitRange_reverse (i f : ℤ) : (qubitRange i f).reverse = qubitRange f i := by
  rcases lt_trichotomy i f with lt | rfl | gt
  · exact qubitRange_reverse_of_lt lt
  · simp [qubitRange]
  · rw [← qubitRange_reverse_of_lt gt, List.reverse_reverse]

theorem qubitRange_perm (i f : ℤ) : (qubitRange f i).Perm (qubitRange i f) := by
  rw [← qubitRange_reverse]
  exact List.reverse_perm _

theorem qubitRange_zero {n : ℕ} (hn : 0 < n) :
    qubitRange 0 ((n : ℤ) - 1) = (List.range n).map (fun q : ℕ => (q : ℤ)) := by
  have width : ((n : ℤ) - 1 - 0 + 1).toNat = n := by omega
  rw [qubitRange, if_pos (by omega), width]
  simp

theorem map_toNat_qubitRange_zero {n : ℕ} (hn : 0 < n) :
    (qubitRange 0 ((n : ℤ) - 1)).map Int.toNat = List.range n := by
  rw [qubitRange_zero hn, List.map_map]
  simp [Function.comp_def]

theorem ne_of_mem_qubitRange {a b t : ℕ} (outside : t < min a b ∨ max a b < t) {q : ℤ}
    (mem : q ∈ qubitRange a b) : q ≠ t := by
  have within := mem_qubitRange mem
  omega

theorem rangeFits_of_lt {n i f : ℕ} (hi : i < n) (hf : f < n) : RangeFits n i f := by
  unfold RangeFits
  omega

/-! ## Steps on different qubits commute -/

theorem marks_perm {qs qs' : List ℤ} (perm : qs.Perm qs') (m : Array Bool) :
    qs.foldl (fun flags q => flags.setIfInBounds q.toNat true) m =
      qs'.foldl (fun flags q => flags.setIfInBounds q.toNat true) m := by
  refine perm.foldl_eq' (fun p _ q _ flags => ?_) m
  by_cases same : p.toNat = q.toNat
  · rw [same]
  · exact Array.setIfInBounds_comm true true same

theorem cnotControls_perm {cs cs' : List ℤ} (perm : cs.Perm cs') {t : ℕ}
    (apart : ∀ c ∈ cs, c.toNat ≠ t) (F : ℕ → ℂ) :
    cs.foldl (fun F c => cnotAct c.toNat t F) F = cs'.foldl (fun F c => cnotAct c.toNat t F) F := by
  refine perm.foldl_eq' (fun c hc c' hc' G => ?_) F
  exact cnotAct_comm (apart c' hc') (apart c hc) G

theorem cnotTargets_perm {ts ts' : List ℤ} (perm : ts.Perm ts') {c : ℕ}
    (apart : ∀ t ∈ ts, c ≠ t.toNat) (F : ℕ → ℂ) :
    ts.foldl (fun F t => cnotAct c t.toNat F) F = ts'.foldl (fun F t => cnotAct c t.toNat F) F := by
  refine perm.foldl_eq' (fun t ht t' ht' G => ?_) F
  exact cnotAct_comm (apart t ht) (apart t' ht') G

/-! ## What the steps return -/

section Steps

variable {R K : Type} [RealScalar R] [Amplitude R K] {n : ℕ}

theorem oneQubitStep_ok (g : OneQubit) (q : ℤ) (a : Array K) :
    ⦃fun s => ⌜Allocated n s ∧ s.cursor = some q ∧ a.size = 2 ^ n ∧ 0 ≤ q ∧ q < n⌝⦄
    (oneQubitStep g n q a : Run R K (Array K))
    ⦃⇓ b s => ⌜Allocated n s ∧ s.cursor = some q ∧ g.apply n q a = .ok b ∧ b.size = 2 ^ n⌝⦄ := by
  mvcgen [oneQubitStep, allocate, Script.ofExcept, emit] with
    grind [allocated_iff, registerSize_small, Returns, OneQubit.apply_returns, Int.toNat_natCast,
      OneQubit.apply]

omit [RealScalar R] [Amplitude R K] in
theorem measureRange_marks {i f : ℤ} (fits : RangeFits n i f) (m : Array Bool)
    (st : Option (Array K)) :
    ⦃fun s => ⌜Allocated n s ∧ s.measured = m ∧ s.state = st⌝⦄ (measureRange i f : Run R K Unit)
    ⦃⇓ _ s => ⌜Allocated n s ∧ s.state = st ∧
      s.measured = (qubitRange i f).foldl (fun flags q => flags.setIfInBounds q.toNat true) m⌝⦄ := by
  unfold measureRange
  mvcgen [setCursor, emit, fail] invariants
  · ⇓ loop s => ⌜Allocated n s ∧ s.state = st ∧
      s.measured = (List.foldl (fun flags q => flags.setIfInBounds q.toNat true) m <|
        List.Cursor.prefix loop.1)⌝
  with grind [allocated_iff, → RangeFits.at_split]

omit [RealScalar R] in
theorem controlledNotStep_ok (c t : ℤ) (a : Array K) :
    ⦃fun s => ⌜Allocated n s ∧ a.size = 2 ^ n ∧ 0 ≤ c ∧ 0 ≤ t ∧ t < n⌝⦄
    (controlledNotStep n c t a : Run R K (Array K))
    ⦃⇓ b s => ⌜Allocated n s ∧ controlledNot n c t a = .ok b ∧ b.size = 2 ^ n⌝⦄ := by
  mvcgen [controlledNotStep, allocate, Script.ofExcept, emit] with
    grind [allocated_iff, registerSize_small, Returns, controlledNot_returns, Int.toNat_natCast]

theorem perform_measure_marks (logarithm : Bool) {line : String} {i f : ℕ}
    (reads : ReadsRange "measure" i f line) (hi : i < n) (hf : f < n) (m : Array Bool)
    (st : Option (Array K)) :
    ⦃fun s => ⌜Allocated n s ∧ s.measured = m ∧ s.state = st⌝⦄ (perform logarithm line : Run R K Unit)
    ⦃⇓ _ s => ⌜Allocated n s ∧ s.state = st ∧
      s.measured = (qubitRange i f).foldl (fun flags q => flags.setIfInBounds q.toNat true) m⌝⦄ := by
  obtain ⟨named, o, ho, first, last⟩ := reads
  have fits : RangeFits n o.controlFrom o.controlTo := by
    unfold RangeFits
    omega
  have marks := measureRange_marks (R := R) fits m st
  unfold perform operandsOf
  rw [named, ho]
  simp +decide only [ite_true, ite_false, false_and]
  rw [← first, ← last]
  mvcgen -trivial [Script.ofExcept, marks] with grind

theorem hadamardAll_eq_foldlM {n : ℕ} (hn : 0 < n) (a : Array K) :
    hadamardAll n a =
      (qubitRange 0 ((n : ℤ) - 1)).foldlM (fun c q => OneQubit.h.apply n q c) a := by
  rw [hadamardAll, if_neg (by omega), qubitRange_zero hn, List.foldlM_map]
  rfl

theorem gateOverRange_ok (word : String) (g : OneQubit) {i f : ℤ} (fits : RangeFits n i f)
    (a : Array K) :
    ⦃fun s => ⌜Allocated n s ∧ s.state = some a⌝⦄ (gateOverRange word g i f : Run R K Unit)
    ⦃⇓ _ s => ⌜Allocated n s ∧ ∃ b, s.state = some b ∧
      (qubitRange i f).foldlM (fun c q => g.apply n q c) a = .ok b⌝⦄ := by
  unfold gateOverRange
  mvcgen [setCursor, oneQubitStep_ok, showState_ok, currentState, fail] invariants
  · ⇓ loop s => ⌜Allocated n s ∧ ∃ b, s.state = some b ∧
      (List.foldlM (fun c q => g.apply n q c) a <| List.Cursor.prefix loop.1) = .ok b⌝
  with grind [allocated_iff, → RangeFits.at_split, List.foldlM_append, ok_bind, pure_eq_ok]

theorem hadamardAllStep_ok (a : Array K) :
    ⦃fun s => ⌜Allocated n s ∧ a.size = 2 ^ n ∧ 0 < n⌝⦄
    (hadamardAllStep n a : Run R K (Array K))
    ⦃⇓ b s => ⌜Allocated n s ∧ hadamardAll n a = .ok b ∧ b.size = 2 ^ n⌝⦄ := by
  mvcgen [hadamardAllStep, allocate, Script.ofExcept, emit, fail] with
    grind [allocated_iff, registerSize_small, hadamardAll_returns, Returns, Int.toNat_natCast]

theorem perform_gate_ok (logarithm : Bool) {word line : String} {g : OneQubit}
    (gate : gateOfWord word = some g) {i f : ℕ} (reads : ReadsRange word i f line) (hi : i < n)
    (hf : f < n) (a : Array K) :
    ⦃fun s => ⌜Allocated n s ∧ s.state = some a⌝⦄ (perform logarithm line : Run R K Unit)
    ⦃⇓ _ s => ⌜Allocated n s ∧ ∃ b, s.state = some b ∧
      (qubitRange i f).foldlM (fun c q => g.apply n q c) a = .ok b⌝⦄ := by
  obtain ⟨named, o, ho, first, last⟩ := reads
  have fits : RangeFits n o.controlFrom o.controlTo := by
    unfold RangeFits
    omega
  have range : rangeWords.contains word = true := by
    revert gate
    unfold gateOfWord
    split <;> simp_all [rangeWords]
  have notMeasure : (word == "measure") = false := by
    revert gate
    unfold gateOfWord
    split <;> simp_all
  have gates := gateOverRange_ok (R := R) word g fits a
  unfold perform operandsOf
  rw [named, ho]
  simp only [range, notMeasure, gate, ↓reduceIte, Bool.false_eq_true]
  rw [← first, ← last]
  -- on the Hadamard path the word is `h`, which prints no gate line of its own
  have quiet : (word == "h") = true → quietWords.contains word = true := by
    intro h
    rw [beq_iff_eq.mp h]
    decide
  have hadamard : (word == "h") = true → g = .h := by
    intro h
    rw [beq_iff_eq.mp h] at gate
    cases gate
    rfl
  mvcgen -trivial [Script.ofExcept, hadamardAllStep_ok, currentState, showState_ok, gates, fail]
  case vc1 s start _ c current =>
    have size : s.size = n := start.1.size
    exact ⟨size ▸ start.1, by rw [size]; grind [allocated_iff], by omega⟩
  case vc2 branch _ _ _ _ after => exact ⟨after.1, after.2.2, .inl (quiet branch.1)⟩
  case vc3 s start branch c current r _ after _ s' =>
    -- the register is the whole of qubits `0 … n - 1`, the range the Hadamard path covers
    intro ready shown
    have size : s.size = n := start.1.size
    have same : c = a := by rw [start.2] at current; exact (Option.some.inj current).symm
    refine ⟨size ▸ ready, r, shown, ?_⟩
    rw [hadamard branch.1, branch.2.1, branch.2.2, ← size, ← hadamardAll_eq_foldlM (by omega),
      ← same, after.2.1]
  case vc4 start _ missing =>
    rw [start.2] at missing
    cases missing
  case vc5 _ start _ => exact start

theorem perform_gate_applies (logarithm : Bool) {word line : String} {g : OneQubit}
    (gate : gateOfWord word = some g) {i f : ℕ} (reads : ReadsRange word i f line) (hi : i < n)
    (hf : f < n) {s : Session R K} {a : Array K} (ready : Allocated n s)
    (current : s.state = some a) :
    ∃ s', (perform logarithm line).run s = .ok () s' ∧ Allocated n s' ∧ ∃ b, s'.state = some b ∧
      (qubitRange i f).foldlM (fun c q => g.apply n q c) a = .ok b := by
  have step := @perform_gate_ok R K _ _ n logarithm word line g gate i f reads hi hf a
  -- the run is named, so that matching the triple does not unfold the program
  generalize (perform logarithm line : Run R K Unit) = x at step ⊢
  obtain ⟨⟨⟩, s', run, after⟩ := exists_run_ok step ⟨ready, current⟩
  exact ⟨s', run, after⟩

end Steps

/-! ## What the lines do to the state -/

section Exact
variable {n : ℕ}

theorem foldlM_qubitRange_apply (g : OneQubit) {i f : ℕ} (hi : i < n) (hf : f < n) {a : Array ℂ}
    (ha : a.size = 2 ^ n) :
    (qubitRange i f).foldlM (fun c q => g.apply n q c) a =
      .ok (tabulate (2 ^ n) (onQubits g.matrix ((qubitRange i f).map Int.toNat) (amp a))) := by
  have inside : ∀ q ∈ (qubitRange i f).map Int.toNat, q < n := by
    intro q mem
    obtain ⟨p, hp, rfl⟩ := List.mem_map.mp mem
    have within := mem_qubitRange hp
    omega
  rw [← g.foldlM_apply_eq _ inside ha, List.foldlM_map]
  -- the qubits of the range are no negative numbers, so they are their own natural numbers
  refine foldlM_congr_of_mem _ a fun c q mem => ?_
  have within := mem_qubitRange mem
  rw [Int.toNat_of_nonneg (by omega)]

theorem controlledNot_tabulate {c t : ℤ} (hc : 0 ≤ c) (ht0 : 0 ≤ t) (ht : t < n) (hct : c ≠ t)
    (F : ℕ → ℂ) :
    controlledNot n c t (tabulate (2 ^ n) F) =
      .ok (tabulate (2 ^ n) (cnotAct c.toNat t.toNat F)) := by
  obtain ⟨c, rfl⟩ := Int.eq_ofNat_of_zero_le hc
  obtain ⟨t, rfl⟩ := Int.eq_ofNat_of_zero_le ht0
  have inside : t < n := by omega
  rw [Int.toNat_natCast, Int.toNat_natCast,
    controlledNot_eq inside (by omega) (size_tabulate _ _)]
  exact congrArg _ (tabulate_congr fun i hi => by simp [cnotAct, cnotIndex_lt inside hi])

theorem controlledNots_exact (o : Operands) (a : Array ℂ)
    (controls : RangeFits n o.controlFrom o.controlTo) (targets : RangeFits n o.targetFrom o.targetTo)
    (apart : ∀ c ∈ qubitRange o.controlFrom o.controlTo, ∀ t ∈ qubitRange o.targetFrom o.targetTo,
      c ≠ t) :
    ⦃fun s => ⌜Allocated n s ∧ s.state = some a⌝⦄ (controlledNots o : Run ℝ ℂ Unit)
    ⦃⇓ _ s => ⌜Allocated n s ∧
      (o.controlTo ≠ o.controlFrom → o.targetFrom = o.targetTo → s.state = some (tabulate (2 ^ n)
        ((qubitRange o.controlFrom o.controlTo).foldl
          (fun F c => cnotAct c.toNat o.targetFrom.toNat F) (amp a)))) ∧
      (o.controlTo = o.controlFrom → s.state = some (tabulate (2 ^ n)
        ((qubitRange o.targetFrom o.targetTo).foldl
          (fun F t => cnotAct o.controlFrom.toNat t.toNat F) (amp a))))⌝⦄ := by
  have quiet : quietWords.contains "cx" = true := by decide
  unfold controlledNots controlledNotOnce
  mvcgen [controlledNotStep_ok, showState_ok, currentState, fail] invariants
  · ⇓ loop s => ⌜Allocated n s ∧ s.state = some (tabulate (2 ^ n)
      (List.foldl (fun F c => cnotAct c.toNat o.targetFrom.toNat F) (amp a) <|
        List.Cursor.prefix loop.1))⌝
  · ⇓ loop s => ⌜Allocated n s ∧ s.state = some (tabulate (2 ^ n)
      (List.foldl (fun F t => cnotAct o.controlFrom.toNat t.toNat F) (amp a) <|
        List.Cursor.prefix loop.1))⌝
  with grind [allocated_iff, RangeFits, → RangeFits.at_split, controlledNot_tabulate, tabulate_amp,
    start_mem_qubitRange]

theorem perform_cx_exact (logarithm : Bool) {line : String} {o : Operands}
    (named : lineWord line = "cx") (reads : operands line = .ok o) (a : Array ℂ)
    (controls : RangeFits n o.controlFrom o.controlTo) (targets : RangeFits n o.targetFrom o.targetTo)
    (apart : ∀ c ∈ qubitRange o.controlFrom o.controlTo, ∀ t ∈ qubitRange o.targetFrom o.targetTo,
      c ≠ t) :
    ⦃fun s => ⌜Allocated n s ∧ s.state = some a⌝⦄ (perform logarithm line : Run ℝ ℂ Unit)
    ⦃⇓ _ s => ⌜Allocated n s ∧
      (o.controlTo ≠ o.controlFrom → o.targetFrom = o.targetTo → s.state = some (tabulate (2 ^ n)
        ((qubitRange o.controlFrom o.controlTo).foldl
          (fun F c => cnotAct c.toNat o.targetFrom.toNat F) (amp a)))) ∧
      (o.controlTo = o.controlFrom → s.state = some (tabulate (2 ^ n)
        ((qubitRange o.targetFrom o.targetTo).foldl
          (fun F t => cnotAct o.controlFrom.toNat t.toNat F) (amp a))))⌝⦄ := by
  have nots := controlledNots_exact o a controls targets apart
  unfold perform operandsOf
  rw [named, reads]
  simp +decide only [ite_true, ite_false]
  mvcgen -trivial [Script.ofExcept, nots] with grind


end Exact

/-! ## Runs of the lines, and the direction of a range -/

section Runs
variable {n : ℕ} {s : Session ℝ ℂ} {A : Array ℂ}

theorem perform_gate_run (logarithm : Bool) {word line : String} {g : OneQubit}
    (gate : gateOfWord word = some g) {i f : ℕ} (reads : ReadsRange word i f line) (hi : i < n)
    (hf : f < n) (ready : Allocated n s) (current : s.state = some A) :
    ∃ s', (perform logarithm line).run s = .ok () s' ∧ Allocated n s' ∧ s'.state = some
      (tabulate (2 ^ n) (onQubits g.matrix ((qubitRange i f).map Int.toNat) (amp A))) := by
  obtain ⟨s', run, ready', b, state, applied⟩ :=
    perform_gate_applies logarithm gate reads hi hf ready current
  have size : A.size = 2 ^ n := by
    obtain ⟨a, held, size⟩ := ready.state
    rw [current] at held
    exact Option.some.inj held ▸ size
  rw [foldlM_qubitRange_apply g hi hf size] at applied
  cases applied
  exact ⟨s', run, ready', state⟩

theorem perform_measure_run (logarithm : Bool) {line : String} {i f : ℕ}
    (reads : ReadsRange "measure" i f line) (hi : i < n) (hf : f < n) (ready : Allocated n s) :
    ∃ s', (perform logarithm line).run s = .ok () s' ∧ s'.state = s.state ∧
      s'.measured = (qubitRange i f).foldl (fun flags q => flags.setIfInBounds q.toNat true)
        s.measured := by
  have step := @perform_measure_marks ℝ ℂ _ _ n logarithm line i f reads hi hf s.measured s.state
  generalize (perform logarithm line : Run ℝ ℂ Unit) = x at step ⊢
  obtain ⟨⟨⟩, s', run, -, after⟩ := exists_run_ok step ⟨ready, rfl, rfl⟩
  exact ⟨s', run, after⟩

theorem perform_cx_run (logarithm : Bool) {line : String} {o : Operands}
    (named : lineWord line = "cx") (reads : operands line = .ok o)
    (controls : RangeFits n o.controlFrom o.controlTo) (targets : RangeFits n o.targetFrom o.targetTo)
    (apart : ∀ c ∈ qubitRange o.controlFrom o.controlTo, ∀ t ∈ qubitRange o.targetFrom o.targetTo,
      c ≠ t) (ready : Allocated n s) (current : s.state = some A) :
    ∃ s', (perform logarithm line).run s = .ok () s' ∧
      (o.controlTo ≠ o.controlFrom → o.targetFrom = o.targetTo → s'.state = some (tabulate (2 ^ n)
        ((qubitRange o.controlFrom o.controlTo).foldl
          (fun F c => cnotAct c.toNat o.targetFrom.toNat F) (amp A)))) ∧
      (o.controlTo = o.controlFrom → s'.state = some (tabulate (2 ^ n)
        ((qubitRange o.targetFrom o.targetTo).foldl
          (fun F t => cnotAct o.controlFrom.toNat t.toNat F) (amp A)))) := by
  have step := @perform_cx_exact n logarithm line o named reads A controls targets apart
  generalize (perform logarithm line : Run ℝ ℂ Unit) = x at step ⊢
  obtain ⟨⟨⟩, s', run, -, after⟩ := exists_run_ok step ⟨ready, current⟩
  exact ⟨s', run, after⟩

/-- A range of qubits written the other way round changes nothing a line does to the state, over
exact arithmetic. On an allocated register of `n` qubits, with `a, b < n`: a one-qubit gate word
over `a … b` and over `b … a` leaves the same state, the Hadamard gate included, whose run over
the whole register written upwards takes its own path; a `measure` line leaves the same state and
the same measured flags; a cx line from the controls `a … b` to a target outside them, and one
from a control outside the targets `a … b`, leave the same state. Every such line returns. -/
theorem perform_range_reversed (logarithm : Bool) (ready : Allocated n s)
    (current : s.state = some A) {a b : ℕ} (ha : a < n) (hb : b < n) :
    (∀ (word : String) (g : OneQubit), gateOfWord word = some g → ∀ up down : String,
      ReadsRange word a b up → ReadsRange word b a down →
      ∃ s₁ s₂, (perform logarithm up).run s = .ok () s₁ ∧
        (perform logarithm down).run s = .ok () s₂ ∧ s₁.state = s₂.state) ∧
    (∀ up down : String, ReadsRange "measure" a b up → ReadsRange "measure" b a down →
      ∃ s₁ s₂, (perform logarithm up).run s = .ok () s₁ ∧
        (perform logarithm down).run s = .ok () s₂ ∧ s₁.state = s₂.state ∧
        s₁.measured = s₂.measured) ∧
    (∀ t : ℕ, t < n → t < min a b ∨ max a b < t → ∀ up down : String,
      lineWord up = "cx" → operands up = .ok ⟨a, b, t, t⟩ →
      lineWord down = "cx" → operands down = .ok ⟨b, a, t, t⟩ →
      ∃ s₁ s₂, (perform logarithm up).run s = .ok () s₁ ∧
        (perform logarithm down).run s = .ok () s₂ ∧ s₁.state = s₂.state) ∧
    (∀ c : ℕ, c < n → c < min a b ∨ max a b < c → ∀ up down : String,
      lineWord up = "cx" → operands up = .ok ⟨c, c, a, b⟩ →
      lineWord down = "cx" → operands down = .ok ⟨c, c, b, a⟩ →
      ∃ s₁ s₂, (perform logarithm up).run s = .ok () s₁ ∧
        (perform logarithm down).run s = .ok () s₂ ∧ s₁.state = s₂.state) := by
  refine ⟨?gates, ?measure, ?controls, ?targets⟩
  case gates =>
    intro word g gate up down readsUp readsDown
    obtain ⟨s₁, run₁, -, state₁⟩ :=
      perform_gate_run logarithm gate readsUp ha hb ready current
    obtain ⟨s₂, run₂, -, state₂⟩ :=
      perform_gate_run logarithm gate readsDown hb ha ready current
    refine ⟨s₁, s₂, run₁, run₂, ?_⟩
    rw [state₁, state₂, onQubits_perm _ ((qubitRange_perm b a).map Int.toNat)]
  case measure =>
    intro up down readsUp readsDown
    obtain ⟨s₁, run₁, state₁, marks₁⟩ := perform_measure_run logarithm readsUp ha hb ready
    obtain ⟨s₂, run₂, state₂, marks₂⟩ := perform_measure_run logarithm readsDown hb ha ready
    refine ⟨s₁, s₂, run₁, run₂, state₁.trans state₂.symm, ?_⟩
    rw [marks₁, marks₂, marks_perm (qubitRange_perm b a)]
  case controls =>
    intro t ht outside up down namedUp readsUp namedDown readsDown
    have target : ∀ q ∈ qubitRange (t : ℤ) t, q = t := fun q mem => by
      have within := mem_qubitRange mem
      omega
    have apart : ∀ c ∈ qubitRange a b, ∀ q ∈ qubitRange (t : ℤ) t, c ≠ q := fun c mem q hq =>
      target q hq ▸ ne_of_mem_qubitRange outside mem
    have apart' : ∀ c ∈ qubitRange b a, ∀ q ∈ qubitRange (t : ℤ) t, c ≠ q := fun c mem q hq =>
      apart c ((qubitRange_perm a b).mem_iff.mp mem) q hq
    obtain ⟨s₁, run₁, proper₁, single₁⟩ := perform_cx_run logarithm namedUp readsUp
      (rangeFits_of_lt ha hb) (rangeFits_of_lt ht ht) apart ready current
    obtain ⟨s₂, run₂, proper₂, single₂⟩ := perform_cx_run logarithm namedDown readsDown
      (rangeFits_of_lt hb ha) (rangeFits_of_lt ht ht) apart' ready current
    refine ⟨s₁, s₂, run₁, run₂, ?_⟩
    dsimp only at proper₁ single₁ proper₂ single₂
    -- a single control takes the loop over the targets, here the one target; a proper range of
    -- controls the loop over the controls, in either order
    by_cases same : a = b
    · subst same
      rw [single₁ rfl, single₂ rfl]
    · have differ : (b : ℤ) ≠ a := by omega
      rw [proper₁ differ rfl, proper₂ differ.symm rfl,
        cnotControls_perm (qubitRange_perm b a) (fun c mem => ?_)]
      have within := mem_qubitRange mem
      omega
  case targets =>
    intro c hc outside up down namedUp readsUp namedDown readsDown
    have control : ∀ q ∈ qubitRange (c : ℤ) c, q = c := fun q mem => by
      have within := mem_qubitRange mem
      omega
    have apart : ∀ q ∈ qubitRange (c : ℤ) c, ∀ t ∈ qubitRange a b, q ≠ t := fun q hq t mem =>
      control q hq ▸ (ne_of_mem_qubitRange outside mem).symm
    have apart' : ∀ q ∈ qubitRange (c : ℤ) c, ∀ t ∈ qubitRange b a, q ≠ t := fun q hq t mem =>
      apart q hq t ((qubitRange_perm a b).mem_iff.mp mem)
    obtain ⟨s₁, run₁, -, single₁⟩ := perform_cx_run logarithm namedUp readsUp
      (rangeFits_of_lt hc hc) (rangeFits_of_lt ha hb) apart ready current
    obtain ⟨s₂, run₂, -, single₂⟩ := perform_cx_run logarithm namedDown readsDown
      (rangeFits_of_lt hc hc) (rangeFits_of_lt hb ha) apart' ready current
    refine ⟨s₁, s₂, run₁, run₂, ?_⟩
    dsimp only at single₁ single₂
    rw [single₁ rfl, single₂ rfl, cnotTargets_perm (qubitRange_perm b a) (fun t mem => ?_)]
    have within := mem_qubitRange mem
    omega

theorem perform_range_reversed_three_qubits : ∃ (s : Session ℝ ℂ) (A : Array ℂ),
    Allocated 3 s ∧ s.state = some A ∧ 0 < 3 ∧ 1 < 3 ∧
    (∀ (word : String) (g : OneQubit), gateOfWord word = some g → ∀ up down : String,
      ReadsRange word 0 1 up → ReadsRange word 1 0 down →
      ∃ s₁ s₂, (perform true up).run s = .ok () s₁ ∧
        (perform true down).run s = .ok () s₂ ∧ s₁.state = s₂.state) ∧
    (∀ up down : String, ReadsRange "measure" 0 1 up → ReadsRange "measure" 1 0 down →
      ∃ s₁ s₂, (perform true up).run s = .ok () s₁ ∧
        (perform true down).run s = .ok () s₂ ∧ s₁.state = s₂.state ∧
        s₁.measured = s₂.measured) ∧
    (∀ t : ℕ, t < 3 → t < min 0 1 ∨ max 0 1 < t → ∀ up down : String,
      lineWord up = "cx" → operands up = .ok ⟨0, 1, t, t⟩ →
      lineWord down = "cx" → operands down = .ok ⟨1, 0, t, t⟩ →
      ∃ s₁ s₂, (perform true up).run s = .ok () s₁ ∧
        (perform true down).run s = .ok () s₂ ∧ s₁.state = s₂.state) ∧
    (∀ c : ℕ, c < 3 → c < min 0 1 ∨ max 0 1 < c → ∀ up down : String,
      lineWord up = "cx" → operands up = .ok ⟨c, c, 0, 1⟩ →
      lineWord down = "cx" → operands down = .ok ⟨c, c, 1, 0⟩ →
      ∃ s₁ s₂, (perform true up).run s = .ok () s₁ ∧
        (perform true down).run s = .ok () s₂ ∧ s₁.state = s₂.state) := by
  let s : Session ℝ ℂ :=
    { Session.initial with
      size := 3, state := some #[1, 0, 0, 0, 0, 0, 0, 0], measured := Array.replicate 3 false }
  have ready : Allocated 3 s := ⟨by norm_num, rfl, rfl, ⟨_, rfl, rfl⟩, fun _ none => nomatch none⟩
  exact ⟨s, _, ready, rfl, by norm_num, by norm_num,
    perform_range_reversed true ready rfl (by norm_num) (by norm_num)⟩

end Runs

end Qubits.Script
