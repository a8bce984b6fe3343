import Qubits.Proofs.GroverIteration
import Qubits.Proofs.GateAlgebra
import Qubits.Proofs.CircuitRefinement
import Qubits.Proofs.CommandSyntax
import Qubits.Proofs.ReportState

/-!
# Grover search as a program

The samples write Grover's search for the basis state `s` of an `n`-qubit register, with `t`
iterations, as the lines `h q[0:n-1];`, then `t` times the block
`Sign s; h q[0:n-1]; Sign 0; h q[0:n-1];`, then `measure q[0:n-1];` (`groverProgram`).

Each line of the second pass maps the amplitudes of an allocated register as a function of the
amplitudes it finds (`Transforms`): the Hadamard line is the Walsh–Hadamard transform, a sign flip
negates one amplitude, and the measurement leaves the state alone. Such maps compose along the
lines (`Transforms.append`), so the block is one step of the iteration `groverStep` and `t` blocks
are its `t`-th iterate (`transforms_groverBlocks`).

Over exact arithmetic, a register of fewer than 59 qubits ends in the state of
`groverPair_iterate`; a register of 59 qubits or more cannot be allocated, and the run stops before
any state exists (`runProgram_grover_search`).
-/

namespace Qubits.Script

open Std.Do Gate StateVector Text

set_option mvcgen.warning false

/-! ## The program -/

def hadamardLine (n : ℕ) : String := (Canonical.range "h" 0 (n - 1)).text

def signLine (s : ℕ) : String := (Canonical.number "Sign" s).text

def measureLine (n : ℕ) : String := (Canonical.range "measure" 0 (n - 1)).text

/-- One iteration: the oracle `Sign s`, then the reflection about the uniform state, written as
the sign flip of `|0…0⟩` between two Hadamard layers. -/
def groverBlock (n s : ℕ) : List String := [signLine s, hadamardLine n, signLine 0, hadamardLine n]

def groverLines (n s t : ℕ) : List String :=
  hadamardLine n :: ((List.replicate t (groverBlock n s)).flatten ++ [measureLine n])

def groverProgram (n s t : ℕ) : String := fileOfLines (groverLines n s t)

/-! ## Reading the lines -/

section Reading

theorem lineWord_canonical {c : Canonical} (plain : PlainWord c.word) : lineWord c.text = c.word := by
  simpa using Canonical.lineWord_text plain (by simp : ';' ∉ "".toList)

theorem operands_rangeWord {c : Canonical} (range : RangeWord c.word) :
    operands c.text = rangeOperands (c.word ++ " " ++ c.operandText).toList := by
  have whole : c.text = c.text ++ "" := String.append_empty.symm
  have body : (splitLast ';' c.text.toList).1 = (c.word ++ " " ++ c.operandText).toList := by
    rw [whole, Canonical.splitLast_text c (by simp)]
  rw [operands, whole, Canonical.commandWord_text range.1 (by simp), ← whole]
  simp only [bind, Except.bind, body]
  -- the word selects the reader, and a word of the range family is none of the others
  split
  case h_5 => rfl
  all_goals exact absurd (by simp_all) range.2

theorem readsRange_canonical {w : String} (range : RangeWord w) {a b : ℕ} (ha : a < 100)
    (hb : b < 100) : ReadsRange w a b (Canonical.range w a b).text :=
  ⟨lineWord_canonical range.1, _,
    (operands_rangeWord (c := .range w a b) range).trans (rangeOperands_range range.1 ha hb), rfl,
    rfl⟩

theorem signWord : RangeWord "Sign" := by decide +kernel

theorem lineWord_signLine (s : ℕ) : lineWord (signLine s) = "Sign" :=
  lineWord_canonical signWord.1

theorem operands_signLine (s : ℕ) : operands (signLine s) = .ok ⟨s, s, -1, -1⟩ :=
  (operands_rangeWord (c := .number "Sign" s) signWord).trans (rangeOperands_number signWord.1 s)

variable {n : ℕ} (hn : n ≤ 100)
include hn

theorem readsRange_hadamardLine : ReadsRange "h" (0 : ℕ) (n - 1 : ℕ) (hadamardLine n) :=
  readsRange_canonical (by decide +kernel) (by norm_num) (by omega)

theorem readsRange_measureLine : ReadsRange "measure" (0 : ℕ) (n - 1 : ℕ) (measureLine n) :=
  readsRange_canonical (by decide +kernel) (by norm_num) (by omega)

end Reading

theorem isFileLineBreak_of_not_blank {c : Char} (h : isBlank c = false) :
    isFileLineBreak c = false := by
  cases breaks : isFileLineBreak c
  · rfl
  · rw [isBlank_of_isFileLineBreak breaks] at h
    cases h

theorem canonical_no_break {w : String} (plain : PlainWord w) {c : Canonical}
    (shape : (∃ a b, c = .range w a b) ∨ ∃ a, c = .number w a) :
    ∀ x ∈ c.text.toList, isFileLineBreak x = false := by
  have digits : ∀ k : ℕ, ∀ x ∈ (toString k).toList, isFileLineBreak x = false :=
    fun k x mem => isFileLineBreak_of_not_blank (isBlank_of_isDigit (isDigit_of_mem_toString mem))
  have word : ∀ x ∈ w.toList, isFileLineBreak x = false :=
    fun x mem => isFileLineBreak_of_not_blank (plain.not_blank x mem)
  rcases shape with ⟨a, b, rfl⟩ | ⟨a, rfl⟩
  · have text : (Canonical.range w a b).text.toList = w.toList ++ [' ', 'q', '['] ++
        (toString a).toList ++ [':'] ++ (toString b).toList ++ [']', ';'] := by
      simp [Canonical.text, Canonical.word, Canonical.operandText, rangeText]
    rw [text]
    simp only [List.forall_mem_append]
    exact ⟨⟨⟨⟨⟨word, by simp [isFileLineBreak]⟩, digits a⟩, by simp [isFileLineBreak]⟩, digits b⟩,
      by simp [isFileLineBreak]⟩
  · have text : (Canonical.number w a).text.toList =
        w.toList ++ [' '] ++ (toString a).toList ++ [';'] := by
      simp [Canonical.text, Canonical.word, Canonical.operandText]
    rw [text]
    simp only [List.forall_mem_append]
    exact ⟨⟨⟨word, by simp [isFileLineBreak]⟩, digits a⟩, by simp [isFileLineBreak]⟩

theorem fileLines_groverProgram (n s t : ℕ) : fileLines (groverProgram n s t) = groverLines n s t := by
  apply fileLines_fileOfLines
  have hadamard := canonical_no_break (by decide +kernel : PlainWord "h") (.inl ⟨0, n - 1, rfl⟩)
  have measure :=
    canonical_no_break (by decide +kernel : PlainWord "measure") (.inl ⟨0, n - 1, rfl⟩)
  have sign := fun k => canonical_no_break signWord.1 (.inr ⟨k, rfl⟩)
  intro line mem
  simp only [groverLines, List.mem_cons, List.mem_append, List.mem_flatten, List.mem_replicate,
    List.not_mem_nil, or_false] at mem
  rcases mem with rfl | ⟨block, ⟨-, rfl⟩, inBlock⟩ | rfl
  · exact hadamard
  · simp only [groverBlock, List.mem_cons, List.not_mem_nil, or_false] at inBlock
    rcases inBlock with rfl | rfl | rfl | rfl
    · exact sign s
    · exact hadamard
    · exact sign 0
    · exact hadamard
  · exact measure

/-! ## The first pass -/

section FirstPass

variable {R K : Type} [RealScalar R] [Amplitude R K]

omit [Amplitude R K] in
theorem survey_signLine (s : ℕ) (st : Session R K) : (survey (signLine s)).run st = .ok () st := by
  have branch : sizingWords.contains "Sign" = false ∧ settingWords.contains "Sign" = false ∧
      ("Sign" == "sk") = false ∧ ("Sign" == "cx") = false ∧ ("Sign" == "csk") = false := by
    decide
  unfold survey
  rw [lineWord_signLine]
  simp only [branch, Bool.false_eq_true, ↓reduceIte]
  rfl

omit [Amplitude R K] in
theorem survey_wholeRange {w line : String} (sizing : w ∈ sizingWords) {n : ℕ} (hn : 1 ≤ n)
    (reads : ReadsRange w 0 (n - 1 : ℕ) line) {st : Session R K} (below : st.size ≤ n) :
    (survey line).run st = .ok () { st with size := n } := by
  obtain ⟨named, o, ho, first, last⟩ := reads
  rw [survey_run_sizing (named ▸ sizing) ho, first, last]
  have grown : max (max st.size ((0 : ℤ) + 1).toNat) (((n - 1 : ℕ) : ℤ) + 1).toNat = n := by
    omega
  rw [grown]

omit [Amplitude R K] in
theorem firstPass_keeps {lines : List String} {st : Session R K}
    (keeps : ∀ line ∈ lines, (survey line).run st = .ok () st) :
    (firstPass lines).run st = .ok () st := by
  induction lines with
  | nil => rfl
  | cons line lines ih =>
    rw [firstPass_cons, run_bind_of_ok (keeps line List.mem_cons_self)]
    exact ih fun l mem => keeps l (List.mem_cons_of_mem _ mem)

omit [Amplitude R K] in
theorem firstPass_groverLines {n : ℕ} (hn : 1 ≤ n) (hn' : n ≤ 100) (s t : ℕ) :
    (firstPass (groverLines n s t)).run (Session.initial : Session R K) =
      .ok () { Session.initial with size := n } := by
  have whole : ∀ st : Session R K, st.size = n →
      (survey (hadamardLine n)).run st = .ok () st ∧ (survey (measureLine n)).run st = .ok () st := by
    intro st size
    have same : { st with size := n } = st := by rw [← size]
    constructor
    · rw [survey_wholeRange (by decide) hn (readsRange_hadamardLine hn') size.le, same]
    · rw [survey_wholeRange (by decide) hn (readsRange_measureLine hn') size.le, same]
  obtain ⟨hadamard, measure⟩ := whole { Session.initial with size := n } rfl
  rw [groverLines, firstPass_cons,
    run_bind_of_ok (survey_wholeRange (by decide) hn (readsRange_hadamardLine hn') (Nat.zero_le n))]
  apply firstPass_keeps
  intro line mem
  simp only [List.mem_append, List.mem_flatten, List.mem_replicate, List.mem_singleton] at mem
  rcases mem with ⟨block, ⟨-, rfl⟩, inBlock⟩ | rfl
  · simp only [groverBlock, List.mem_cons, List.not_mem_nil, or_false] at inBlock
    rcases inBlock with rfl | rfl | rfl | rfl
    · exact survey_signLine s _
    · exact hadamard
    · exact survey_signLine 0 _
    · exact hadamard
  · exact measure

end FirstPass

/-! ## The lines as maps of the amplitudes -/

/-- The lines `lines` of the second pass apply the map `F` to the amplitudes of an allocated
`n`-qubit register: from every allocated session whose state holds the amplitudes `g`, they return
in an allocated session whose state holds `F g`. -/
def Transforms (logarithm : Bool) (n : ℕ) (lines : List String) (F : (ℕ → ℂ) → ℕ → ℂ) : Prop :=
  ∀ (st : Session ℝ ℂ) (g : ℕ → ℂ), Allocated n st → st.state = some (tabulate (2 ^ n) g) →
    ∃ st', (secondPass logarithm lines).run st = .ok () st' ∧ Allocated n st' ∧
      st'.state = some (tabulate (2 ^ n) (F g))

section Transforms

variable {logarithm : Bool} {n : ℕ}

theorem transforms_nil : Transforms logarithm n [] id :=
  fun st _ ready current => ⟨st, rfl, ready, current⟩

theorem Transforms.append {lines lines' : List String} {F G : (ℕ → ℂ) → ℕ → ℂ}
    (first : Transforms logarithm n lines F) (second : Transforms logarithm n lines' G) :
    Transforms logarithm n (lines ++ lines') (G ∘ F) := by
  intro st g ready current
  obtain ⟨st₁, run₁, ready₁, current₁⟩ := first st g ready current
  obtain ⟨st₂, run₂, ready₂, current₂⟩ := second st₁ (F g) ready₁ current₁
  exact ⟨st₂, (secondPass_append_run run₁).trans run₂, ready₂, current₂⟩

theorem transforms_singleton {line : String} {F : (ℕ → ℂ) → ℕ → ℂ}
    (step : ∀ (st : Session ℝ ℂ) (g : ℕ → ℂ), Allocated n st →
      st.state = some (tabulate (2 ^ n) g) →
      ∃ st', (perform logarithm line).run st = .ok () st' ∧ Allocated n st' ∧
        st'.state = some (tabulate (2 ^ n) (F g))) :
    Transforms logarithm n [line] F := by
  intro st g ready current
  obtain ⟨st', run, ready', current'⟩ := step st g ready current
  exact ⟨st', by rw [secondPass_cons_run run, secondPass_nil]; rfl, ready', current'⟩

theorem transforms_hadamardLine (hn : 1 ≤ n) (hn' : n ≤ 100) :
    Transforms logarithm n [hadamardLine n] (stagedWalsh n) := by
  apply transforms_singleton
  intro st g ready current
  obtain ⟨st', run, ready', after⟩ := perform_gate_run logarithm (rfl : gateOfWord "h" = some .h)
    (readsRange_hadamardLine hn') (by omega) (by omega) ready current
  refine ⟨st', run, ready', ?_⟩
  have upwards : ((n - 1 : ℕ) : ℤ) = (n : ℤ) - 1 := by omega
  rw [after, upwards, Nat.cast_zero, map_toNat_qubitRange_zero (by omega)]
  -- the gate of `h` is the Hadamard matrix, applied to the amplitudes `g` stands for
  show some (tabulate (2 ^ n) (onQubits hadamardMatrix (List.range n) _)) = _
  rw [onQubits_hadamardMatrix_range]
  exact congrArg some (tabulate_congr (stagedWalsh_congr fun i hi => by rw [amp_tabulate, if_pos hi]))

theorem negateAt_flipSign {s : ℕ} (hs : s < 2 ^ n) (small : n < 59) {a : Array ℂ}
    (ha : a.size = 2 ^ n) : negateAt s a = .ok (tabulate (2 ^ n) (flipSign s (amp a))) := by
  have nonneg : (0 : ℤ) ≤ s := Int.natCast_nonneg s
  have inside : (s : ℤ) < 2 ^ n := by exact_mod_cast hs
  have word : (2 : ℤ) ^ n ≤ 2 ^ 63 := pow_le_pow_right₀ (by norm_num) (by omega)
  have fits : (Kernel.sign s).Fits n :=
    ⟨by linarith [pow_pos (two_pos (α := ℤ)) n], inside, by linarith, inside.trans_le word⟩
  have position : signPosition n s = s := by simp [signPosition]
  have acts : (Kernel.sign s).act n (amp a) = flipSign s (amp a) := by
    funext i
    simp only [Kernel.act, position, flipSign]
  have applied : negateAt s a = .ok (tabulate (2 ^ n) ((Kernel.sign s).act n (amp a))) :=
    Kernel.apply_eq fits ha
  rw [applied, acts]

theorem signStep_flips (small : n < 59) {s : ℕ} (hs : s < 2 ^ n) (a : Array ℂ) :
    ⦃fun st => ⌜Allocated n st ∧ a.size = 2 ^ n⌝⦄ (signStep s a : Run ℝ ℂ (Array ℂ))
    ⦃⇓ b st => ⌜Allocated n st ∧ b = tabulate (2 ^ n) (flipSign s (amp a))⌝⦄ := by
  refine triple_of_pure fun size => ?_
  unfold signStep
  rw [negateAt_flipSign hs small size]
  mvcgen [Script.ofExcept, emit] with grind [allocated_iff]

theorem perform_signLine (small : n < 59) {s : ℕ} (hs : s < 2 ^ n) (a : Array ℂ) :
    ⦃fun st => ⌜Allocated n st ∧ st.state = some a⌝⦄ (perform logarithm (signLine s) : Run ℝ ℂ Unit)
    ⦃⇓ _ st => ⌜Allocated n st ∧ st.state = some (tabulate (2 ^ n) (flipSign s (amp a)))⌝⦄ := by
  -- the word selects the branch of the sign flip
  have branch : rangeWords.contains "Sign" = false ∧ ("Sign" == "sk") = false ∧
      ("Sign" == "cx") = false ∧ ("Sign" == "csk") = false ∧ ("Sign" == "Sign") = true := by
    decide
  have quiet : quietWords.contains "Sign" = true := by decide
  have flip := @signStep_flips n small s hs
  unfold perform operandsOf
  rw [operands_signLine, lineWord_signLine]
  simp only [branch, Bool.false_eq_true, ↓reduceIte]
  mvcgen -trivial [Script.ofExcept, currentState, fail, flip, showState_ok] with
    grind [allocated_iff, size_tabulate]

theorem transforms_signLine {s : ℕ} (hs : s < 2 ^ n) :
    Transforms logarithm n [signLine s] (flipSign s) := by
  apply transforms_singleton
  intro st g ready current
  have step := @perform_signLine logarithm n ready.small s hs (tabulate (2 ^ n) g)
  -- the run is named, so that matching the triple does not unfold the program
  generalize (perform logarithm (signLine s) : Run ℝ ℂ Unit) = x at step ⊢
  obtain ⟨⟨⟩, st', run, ready', after⟩ := exists_run_ok step ⟨ready, current⟩
  refine ⟨st', run, ready', ?_⟩
  rw [after]
  exact congrArg some (tabulate_congr fun i hi => by simp only [flipSign, amp_tabulate, if_pos hi])

theorem transforms_measureLine (hn : 1 ≤ n) (hn' : n ≤ 100) :
    Transforms logarithm n [measureLine n] id := by
  apply transforms_singleton
  intro st g ready current
  have step := @perform_measure_marks ℝ ℂ _ _ n logarithm (measureLine n) 0 (n - 1)
    (readsRange_measureLine hn') (by omega) (by omega) st.measured st.state
  generalize (perform logarithm (measureLine n) : Run ℝ ℂ Unit) = x at step ⊢
  obtain ⟨⟨⟩, st', run, ready', after, -⟩ := exists_run_ok step ⟨ready, rfl, rfl⟩
  exact ⟨st', run, ready', after.trans current⟩

theorem transforms_groverBlock (hn : 1 ≤ n) (hn' : n ≤ 100) {s : ℕ} (hs : s < 2 ^ n) :
    Transforms logarithm n (groverBlock n s) (groverStep n s) :=
  (transforms_signLine hs).append ((transforms_hadamardLine hn hn').append
    ((transforms_signLine (Nat.two_pow_pos n)).append (transforms_hadamardLine hn hn')))

theorem transforms_groverBlocks (hn : 1 ≤ n) (hn' : n ≤ 100) {s : ℕ} (hs : s < 2 ^ n) (t : ℕ) :
    Transforms logarithm n (List.replicate t (groverBlock n s)).flatten (groverStep n s)^[t] := by
  induction t with
  | zero => exact transforms_nil
  | succ t ih =>
    rw [List.replicate_succ, List.flatten_cons, Function.iterate_succ]
    exact (transforms_groverBlock hn hn' hs).append ih

theorem transforms_groverLines (hn : 1 ≤ n) (hn' : n ≤ 100) {s : ℕ} (hs : s < 2 ^ n) (t : ℕ) :
    Transforms logarithm n (groverLines n s t) ((groverStep n s)^[t] ∘ stagedWalsh n) :=
  (transforms_hadamardLine hn hn').append
    ((transforms_groverBlocks hn hn' hs t).append (transforms_measureLine hn hn'))

end Transforms

/-! ## The whole run -/

theorem ground_eq_tabulate (n : ℕ) :
    (zeros (2 ^ n) : Array ℂ).setIfInBounds 0 (Amplitude.ofReal (RealScalar.ofInt 1)) =
      tabulate (2 ^ n) fun i => if i = 0 then 1 else 0 := by
  have inside : 0 < (zeros (2 ^ n) : Array ℂ).size := by simp [Nat.two_pow_pos n]
  rw [Array.setIfInBounds, dif_pos inside]
  apply ext_amp (by simp) (size_tabulate _ _)
  intro i hi
  rw [amp_set inside, zeros_eq, amp_tabulate, amp_tabulate, if_pos hi, if_pos hi]
  split_ifs <;> simp

theorem conclude_run_of_shown {R K : Type} [RealScalar R] [Amplitude R K] {n : ℕ}
    {st : Session R K} (ready : Allocated n st) (shown : Shown st) :
    ∃ st', conclude.run st = .ok () st' ∧ st'.state = st.state := by
  have ends := triple_iff.mp (conclude_reads_report ready) st rfl
  cases h : (conclude : Run R K Unit).run st with
  | ok _ st' => exact ⟨st', rfl, run_ok_of_triple (conclude_state st.state) rfl h⟩
  | error e st' =>
    rw [h] at ends
    obtain ⟨-, unset, -⟩ := ends
    obtain ⟨b, -, report⟩ := shown
    rw [report] at unset
    cases unset

variable {n : ℕ}

theorem runProgram_groverProgram_ok (logarithm : Bool) (seed : ℤ) (hn : 1 ≤ n) (small : n < 59)
    {s : ℕ} (hs : s < 2 ^ n) (t : ℕ) :
    ∃ st, (runProgram logarithm seed (groverProgram n s t) : Run ℝ ℂ Unit).run Session.initial =
      .ok () st ∧ st.state = some (tabulate (2 ^ n)
        ((groverStep n s)^[t] (stagedWalsh n fun i => if i = 0 then 1 else 0))) := by
  have hn' : n ≤ 100 := by omega
  have surveyed := @firstPass_groverLines ℝ ℂ _ n hn hn' s t
  rw [← fileLines_groverProgram] at surveyed
  -- the preparation allocates the register in `|0…0⟩`
  have prepared : ∃ st₀, (prepare (Random.Twister.seeded seed)).run
      { (Session.initial : Session ℝ ℂ) with size := n } = .ok () st₀ ∧ st₀.state =
        some ((zeros (2 ^ n)).setIfInBounds 0 (Amplitude.ofReal (RealScalar.ofInt 1))) := by
    have triple := @prepare_ground_state ℝ ℂ _ _ (Random.Twister.seeded seed)
      { Session.initial with size := n } rfl small
    -- the run is named, so that matching the triple does not unfold the program
    generalize (prepare (Random.Twister.seeded seed) : Run ℝ ℂ Unit) = x at triple ⊢
    obtain ⟨⟨⟩, st₀, run, ground⟩ := exists_run_ok triple rfl
    exact ⟨st₀, run, ground⟩
  obtain ⟨st₀, preparation, ground⟩ := prepared
  have ready₀ : Allocated n st₀ := prepare_allocated _ rfl preparation
  have start : st₀.state = some (tabulate (2 ^ n) fun i => if i = 0 then 1 else 0) := by
    rw [ground]
    exact congrArg some (ground_eq_tabulate n)
  obtain ⟨st₂, passed, ready₂, final⟩ :=
    @transforms_groverLines logarithm n hn hn' s hs t st₀ _ ready₀ start
  -- the Hadamard lines show their result, so the final reports find it
  have showing : Shows (hadamardLine n) := .inl (by rw [(readsRange_hadamardLine hn').1]; decide)
  have shown : Shown st₂ := (secondPass_ok_shows passed).1 ⟨_, List.mem_cons_self, showing⟩
  obtain ⟨st₃, concluded, same⟩ := conclude_run_of_shown ready₂ shown
  refine ⟨st₃, ?_, same.trans final⟩
  rw [runProgram_run surveyed preparation, fileLines_groverProgram, run_bind_of_ok passed,
    concluded]

theorem runProgram_groverProgram_refused (logarithm : Bool) (seed : ℤ) (hn : 1 ≤ n)
    (hn' : n ≤ 100) (s t : ℕ) {e : Fault} (refused : registerSize n = .error e) :
    ∃ st, (runProgram logarithm seed (groverProgram n s t) : Run ℝ ℂ Unit).run Session.initial =
      .error e st ∧ st.state = none := by
  have surveyed := @firstPass_groverLines ℝ ℂ _ n hn hn' s t
  rw [← fileLines_groverProgram] at surveyed
  -- the size is printed before the allocation, and two digits are few enough to print
  have printable : n < 10 ^ maxIntDigits :=
    calc n < 10 ^ 3 := by omega
      _ ≤ 10 ^ maxIntDigits := Nat.pow_le_pow_right (by norm_num) (by unfold maxIntDigits; omega)
  have stops : ∃ st, (prepare (Random.Twister.seeded seed)).run
      { (Session.initial : Session ℝ ℂ) with size := n } = .error e st ∧ st.state = none := by
    have triple := @prepare_refused ℝ ℂ _ _ (Random.Twister.seeded seed)
      { Session.initial with size := n } e refused
    generalize (prepare (Random.Twister.seeded seed) : Run ℝ ℂ Unit) = x at triple ⊢
    obtain ⟨_, st, stopped, empty, named⟩ := exists_run_error triple rfl
    exact ⟨st, named printable ▸ stopped, empty⟩
  obtain ⟨st, stopped, empty⟩ := stops
  exact ⟨st, by rw [runProgram_after_firstPass surveyed, run_bind_of_error stopped], empty⟩

/-- Grover's search as the samples write it, over exact arithmetic. Take `n` qubits with
`1 ≤ n < 59`, any target `s < 2^n` and any number `t` of iterations, and let `N = 2^n`,
`θ = arcsin (1/√N)`. The run returns, and its final state has `N` amplitudes: the pair state of
the `t`-th iterate of `groverPair` from the uniform state `(1/√N, 1/√N)`, which is
`(-1)^t sin((2t+1)θ)` at the target and `(-1)^t cos((2t+1)θ)/√(N-1)` at every other basis state.
From 59 qubits to 100 the register cannot be allocated: the run stops with the allocation's
fault, before any state exists. -/
theorem runProgram_grover_search (logarithm : Bool) (seed : ℤ) {n s : ℕ} (hn : 1 ≤ n)
    (hs : s < 2 ^ n) (t : ℕ) :
    (n < 59 → ∃ st A, (runProgram logarithm seed (groverProgram n s t) : Run ℝ ℂ Unit).run
        Session.initial = .ok () st ∧ st.state = some A ∧ A.size = 2 ^ n ∧
      (∀ j < 2 ^ n, amp A j = pairState s
        ((groverPair (2 ^ n))^[t] (1 / Real.sqrt (2 ^ n : ℕ), 1 / Real.sqrt (2 ^ n : ℕ))).1
        ((groverPair (2 ^ n))^[t] (1 / Real.sqrt (2 ^ n : ℕ), 1 / Real.sqrt (2 ^ n : ℕ))).2 j) ∧
      amp A s = ((-1) ^ t * Real.sin ((2 * t + 1) * groverAngle (2 ^ n)) : ℝ) ∧
      ∀ j < 2 ^ n, j ≠ s → amp A j = ((-1) ^ t * Real.cos ((2 * t + 1) * groverAngle (2 ^ n)) /
        Real.sqrt (((2 ^ n : ℕ) : ℝ) - 1) : ℝ)) ∧
    (59 ≤ n → n ≤ 100 → ∃ e st, (runProgram logarithm seed (groverProgram n s t) : Run ℝ ℂ Unit).run
        Session.initial = .error e st ∧ registerSize n = .error e ∧ st.state = none) := by
  constructor
  · intro small
    obtain ⟨st, run, final⟩ := runProgram_groverProgram_ok logarithm seed hn small hs t
    have big : 2 ≤ 2 ^ n := by simpa using Nat.pow_le_pow_right two_pos hn
    -- the uniform state is a pair state, and every iteration keeps one
    have iterated := iterate_groverStep_pairState hs t
      (1 / Real.sqrt ((2 ^ n : ℕ) : ℝ), 1 / Real.sqrt ((2 ^ n : ℕ) : ℝ)) _
      fun i hi => stagedWalsh_ground s hi
    have closed := groverPair_iterate big t
    refine ⟨st, _, run, final, size_tabulate _ _, fun j hj => ?_, ?_, fun j hj other => ?_⟩
    · rw [amp_tabulate, if_pos hj]
      exact iterated j hj
    · rw [amp_tabulate, if_pos hs, iterated s hs, closed, pairState, if_pos rfl]
    · rw [amp_tabulate, if_pos hj, iterated j hj, closed, pairState, if_neg other]
  · intro big hn'
    cases refused : registerSize n with
    | ok m => exact absurd (registerSize_small_of_ok refused) (by omega)
    | error e =>
      obtain ⟨st, stopped, empty⟩ :=
        runProgram_groverProgram_refused logarithm seed hn hn' s t refused
      exact ⟨e, st, stopped, rfl, empty⟩

theorem runProgram_grover_search_two_qubits : 1 ≤ 2 ∧ 3 < 2 ^ 2 ∧
    ((2 < 59 → ∃ st A, (runProgram true 0 (groverProgram 2 3 1) : Run ℝ ℂ Unit).run
        Session.initial = .ok () st ∧ st.state = some A ∧ A.size = 2 ^ 2 ∧
      (∀ j < 2 ^ 2, amp A j = pairState 3
        ((groverPair (2 ^ 2))^[1] (1 / Real.sqrt (2 ^ 2 : ℕ), 1 / Real.sqrt (2 ^ 2 : ℕ))).1
        ((groverPair (2 ^ 2))^[1] (1 / Real.sqrt (2 ^ 2 : ℕ), 1 / Real.sqrt (2 ^ 2 : ℕ))).2 j) ∧
      amp A 3 = ((-1) ^ 1 * Real.sin ((2 * (1 : ℕ) + 1) * groverAngle (2 ^ 2)) : ℝ) ∧
      ∀ j < 2 ^ 2, j ≠ 3 → amp A j =
        ((-1) ^ 1 * Real.cos ((2 * (1 : ℕ) + 1) * groverAngle (2 ^ 2)) /
          Real.sqrt (((2 ^ 2 : ℕ) : ℝ) - 1) : ℝ)) ∧
    (59 ≤ 2 → 2 ≤ 100 → ∃ e st, (runProgram true 0 (groverProgram 2 3 1) : Run ℝ ℂ Unit).run
        Session.initial = .error e st ∧ registerSize 2 = .error e ∧ st.state = none)) :=
  ⟨by norm_num, by norm_num, runProgram_grover_search true 0 (by norm_num) (by norm_num) 1⟩

/-- Fifty-nine qubits are more than can be allocated: the search with no iteration,
`h q[0:58];` then `measure q[0:58];`, stops at the preparation before any state exists. -/
theorem runProgram_grover_fifty_nine_qubits :
    ∃ st, (runProgram true 0 (groverProgram 59 0 0) : Run ℝ ℂ Unit).run Session.initial =
      .error .arrayTooBig st ∧ st.state = none :=
  runProgram_groverProgram_refused true 0 (by norm_num) (by norm_num) 0 0 rfl

end Qubits.Script
