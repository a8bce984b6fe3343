import Qubits.Proofs.Bounds
import Qubits.Proofs.SessionInvariant

/-!
# The reports read the state

The final reports read a vector of their own, `Session.report`, which stays unset until the
preparation or a gate sets it. Every gate of the second pass ends in `showState`, which sets the
state vector and the report to the gate's result together, and no other step of the pass touches
either. So a line of the second pass either leaves both alone (`Kept`) or ends with both equal to
its result (`Shown`), and which of the two it does is read off its text (`Shows`); along the
whole pass the report, once set, is the state vector (`ReportIsState`).

After the pass the report is unset exactly when no line chose how the register starts
(`ChoosesStart`), so that it started in `|0…0⟩`, and no line showed a gate's result. The final
reports read it: each one that runs reports the final state, and the first of them stops the run
with `NameError` exactly when it is unset (`runProgram_report_tracks_state`).
-/

namespace Qubits.Script

open Std.Do Gate

set_option mvcgen.warning false
set_option linter.unusedSectionVars false

variable {R K : Type}

/-! ## Sessions and what a step did to them -/

def ReportIsState (s : Session R K) : Prop := ∀ c, s.report = some c → s.state = some c

def Kept (s₀ s : Session R K) : Prop := s.state = s₀.state ∧ s.report = s₀.report

def Shown (s : Session R K) : Prop := ∃ b, s.state = some b ∧ s.report = some b

def Follows (s₀ s : Session R K) : Prop := Kept s₀ s ∨ Shown s

theorem Kept.refl (s : Session R K) : Kept s s := ⟨rfl, rfl⟩

theorem Kept.trans {s₀ s₁ s₂ : Session R K} (first : Kept s₀ s₁) (second : Kept s₁ s₂) :
    Kept s₀ s₂ :=
  ⟨second.1.trans first.1, second.2.trans first.2⟩

theorem Shown.kept {s₁ s₂ : Session R K} (shown : Shown s₁) (kept : Kept s₁ s₂) : Shown s₂ := by
  obtain ⟨b, state, report⟩ := shown
  exact ⟨b, kept.1.trans state, kept.2.trans report⟩

theorem Follows.trans {s₀ s₁ s₂ : Session R K} (first : Follows s₀ s₁) (second : Follows s₁ s₂) :
    Follows s₀ s₂ := by
  rcases second with kept | shown
  · rcases first with kept₀ | shown₀
    · exact .inl (kept₀.trans kept)
    · exact .inr (shown₀.kept kept)
  · exact .inr shown

theorem Shown.reportIsState {s : Session R K} (shown : Shown s) : ReportIsState s := by
  obtain ⟨b, state, report⟩ := shown
  intro c hc
  rw [report, Option.some.injEq] at hc
  rw [state, hc]

theorem ReportIsState.follows {s₀ s : Session R K} (h : ReportIsState s₀) (follows : Follows s₀ s) :
    ReportIsState s := by
  rcases follows with ⟨state, report⟩ | shown
  · intro c hc
    rw [state]
    exact h c (report ▸ hc)
  · exact shown.reportIsState

variable [RealScalar R] [Amplitude R K]

/-! ## Which lines show a gate's result -/

/-- The words whose lines show a gate's result every time they run: the one-qubit gates other
than the identity, the phases, the sign flip, the reversal and the Fourier transforms. -/
def showingWords : List String :=
  ["h", "x", "y", "z", "s", "sdg", "t", "tdg", "sk", "csk", "Sign", "reverse", "QFT", "IQFT"]

/-- A line that shows a gate's result when it runs: one of `showingWords`, or a cx line whose
controls or targets are a single qubit (a cx line between two ranges applies nothing). -/
def Shows (line : String) : Prop :=
  lineWord line ∈ showingWords ∨ lineWord line = "cx" ∧
    ∃ o, operands line = .ok o ∧ (o.controlTo = o.controlFrom ∨ o.targetFrom = o.targetTo)

theorem shows_iff {line : String} : Shows line ↔ lineWord line ∈ showingWords ∨
    lineWord line = "cx" ∧ ∃ o ∈ (operands line).toOption,
      o.controlTo = o.controlFrom ∨ o.targetFrom = o.targetTo := by
  unfold Shows
  cases operands line <;> simp [Except.toOption]

instance (line : String) : Decidable (Shows line) := decidable_of_iff _ shows_iff.symm

example : Shows "cx q[0], q[1:2];" := by decide +kernel

example : ¬Shows "cx q[0:1], q[2:3];" := by decide +kernel

def ChoosesStart (line : String) : Prop := lineWord line = "init" ∨ lineWord line = "N&m"

instance (line : String) : Decidable (ChoosesStart line) :=
  inferInstanceAs (Decidable (_ ∨ _))

theorem mem_showingWords {w : String} : w ∈ showingWords ↔ w = "h" ∨ w = "x" ∨ w = "y" ∨
    w = "z" ∨ w = "s" ∨ w = "sdg" ∨ w = "t" ∨ w = "tdg" ∨ w = "sk" ∨ w = "csk" ∨ w = "Sign" ∨
    w = "reverse" ∨ w = "QFT" ∨ w = "IQFT" := by
  simp [showingWords]

-- the match on the gate words unfolds into a deep chain of string comparisons
set_option maxRecDepth 40000 in
theorem rangeWords_showing : ∀ w ∈ rangeWords, w ∈ showingWords ↔ gateOfWord w ≠ none := by
  decide +kernel

theorem measure_not_showing : "measure" ∉ showingWords := by decide

theorem cx_not_range : "cx" ∉ rangeWords := by decide

theorem showingWords_dispatched : ∀ w ∈ showingWords, rangeWords.contains w = true ∨ w = "sk" ∨
    w = "csk" ∨ w = "Sign" ∨ w = "reverse" ∨ w = "QFT" ∨ w = "IQFT" := by
  decide

/-! ## The steps of the second pass -/

section Steps

variable (s₀ : Session R K)

theorem showState_shown (word : String) (n verbose : ℤ) (b : Array K) :
    ⦃fun s => ⌜Follows s₀ s⌝⦄ (showState word n verbose b : Run R K Unit)
    ⦃post⟨fun _ s => ⌜Shown s⌝, fun _ s => ⌜Follows s₀ s⌝⟩⦄ := by
  mvcgen [showState, cursorQubit, emit, fail, Script.ofExcept] with grind [Follows, Kept, Shown]

theorem measureRange_kept (i f : ℤ) :
    ⦃fun s => ⌜Kept s₀ s⌝⦄ (measureRange i f : Run R K Unit)
    ⦃post⟨fun _ s => ⌜Kept s₀ s⌝, fun _ s => ⌜Kept s₀ s⌝⟩⦄ := by
  unfold measureRange
  mvcgen [setCursor, emit, fail] invariants
  · post⟨fun _ s => ⌜Kept s₀ s⌝, fun _ s => ⌜Kept s₀ s⌝⟩

theorem gateOverRange_shown (word : String) (g : OneQubit) (i f : ℤ) :
    ⦃fun s => ⌜Follows s₀ s⌝⦄ (gateOverRange word g i f : Run R K Unit)
    ⦃post⟨fun _ s => ⌜Shown s⌝, fun _ s => ⌜Follows s₀ s⌝⟩⦄ := by
  unfold gateOverRange
  have shows := showState_shown s₀
  mvcgen [setCursor, currentState, fail, oneQubitStep, allocate, Script.ofExcept, emit, shows]
    invariants
  · post⟨fun loop s => ⌜Follows s₀ s ∧ (Shown s ∨ List.Cursor.prefix loop.1 = [])⌝,
      fun _ s => ⌜Follows s₀ s⌝⟩
  with grind [Follows, Kept, Shown, start_mem_qubitRange]

theorem phaseOverRange_shown (i f k : ℤ) :
    ⦃fun s => ⌜Follows s₀ s⌝⦄ (phaseOverRange i f k : Run R K Unit)
    ⦃post⟨fun _ s => ⌜Shown s⌝, fun _ s => ⌜Follows s₀ s⌝⟩⦄ := by
  unfold phaseOverRange
  have shows := showState_shown s₀
  mvcgen [setCursor, currentState, fail, rootPhaseStep, allocate, Script.ofExcept, emit, shows]
    invariants
  · post⟨fun loop s => ⌜Follows s₀ s ∧ (Shown s ∨ List.Cursor.prefix loop.1 = [])⌝,
      fun _ s => ⌜Follows s₀ s⌝⟩
  with grind [Follows, Kept, Shown, start_mem_qubitRange]

theorem controlledNotOnce_shown (c t : ℤ) :
    ⦃fun s => ⌜Follows s₀ s⌝⦄ (controlledNotOnce c t : Run R K Unit)
    ⦃post⟨fun _ s => ⌜Shown s⌝, fun _ s => ⌜Follows s₀ s⌝⟩⦄ := by
  have shows := showState_shown s₀
  mvcgen [controlledNotOnce, currentState, fail, controlledNotStep, allocate, Script.ofExcept,
    emit, shows]

theorem controlledNots_shows (o : Operands) :
    ⦃fun s => ⌜Kept s₀ s⌝⦄ (controlledNots o : Run R K Unit)
    ⦃post⟨fun _ s => ⌜(o.controlTo = o.controlFrom ∨ o.targetFrom = o.targetTo → Shown s) ∧
        (o.controlTo ≠ o.controlFrom ∧ o.targetFrom ≠ o.targetTo → Kept s₀ s)⌝,
      fun _ s => ⌜Follows s₀ s⌝⟩⦄ := by
  unfold controlledNots
  have once := controlledNotOnce_shown s₀
  mvcgen [once] invariants
  · post⟨fun loop s => ⌜Follows s₀ s ∧ (Shown s ∨ List.Cursor.prefix loop.1 = [])⌝,
      fun _ s => ⌜Follows s₀ s⌝⟩
  · post⟨fun loop s => ⌜Follows s₀ s ∧ (Shown s ∨ List.Cursor.prefix loop.1 = [])⌝,
      fun _ s => ⌜Follows s₀ s⌝⟩
  with grind [Follows, Kept, Shown, start_mem_qubitRange]

theorem controlledPhaseOnce_shown (o : Operands) :
    ⦃fun s => ⌜Follows s₀ s⌝⦄ (controlledPhaseOnce o : Run R K Unit)
    ⦃post⟨fun _ s => ⌜Shown s⌝, fun _ s => ⌜Follows s₀ s⌝⟩⦄ := by
  have shows := showState_shown s₀
  mvcgen [controlledPhaseOnce, checkLogarithm, currentState, fail, controlledPhaseStep, allocate,
    Script.ofExcept, emit, shows]

theorem fourierOnce_shown (word : String) (i f : ℤ) :
    ⦃fun s => ⌜Follows s₀ s⌝⦄ (fourierOnce word i f : Run R K Unit)
    ⦃post⟨fun _ s => ⌜Shown s⌝, fun _ s => ⌜Follows s₀ s⌝⟩⦄ := by
  have shows := showState_shown s₀
  mvcgen [fourierOnce, currentState, fail, fourierStep, allocate, Script.ofExcept, emit, shows]

theorem perform_shows (logarithm : Bool) (line : String) :
    ⦃fun s => ⌜Kept s₀ s⌝⦄ (perform logarithm line : Run R K Unit)
    ⦃post⟨fun _ s => ⌜(Shows line → Shown s) ∧ (¬Shows line → Kept s₀ s)⌝,
      fun _ s => ⌜Follows s₀ s⌝⟩⦄ := by
  -- the word and the operands are fixed texts of the line; naming them keeps the conditions of
  -- the branches from being evaluated
  unfold perform operandsOf Shows
  generalize operands line = r
  generalize lineWord line = word
  have gates := gateOverRange_shown s₀
  have measures := measureRange_kept s₀
  have phases := phaseOverRange_shown s₀
  have nots := controlledNots_shows s₀
  have controlled := controlledPhaseOnce_shown s₀
  have fourier := fourierOnce_shown s₀
  have shows := showState_shown s₀
  mvcgen [fail, Script.ofExcept, currentState, checkLogarithm, hadamardAllStep, signStep,
    reverseStep, allocate, emit, gates, measures, phases, nots, controlled, fourier, shows]
  all_goals clear gates measures phases nots controlled fourier shows
  all_goals grind -ring -linarith [Follows, Kept, Shown, mem_showingWords, measure_not_showing,
    cx_not_range, rangeWords_showing, showingWords_dispatched]

end Steps

/-! ## The second pass -/

theorem perform_ok_shows {logarithm : Bool} {line : String} {s s' : Session R K}
    (h : (perform logarithm line).run s = .ok () s') :
    (Shows line → Shown s') ∧ (¬Shows line → Kept s s') :=
  run_ok_of_triple (@perform_shows R K _ _ s logarithm line) (Kept.refl s) h

theorem perform_error_follows {logarithm : Bool} {line : String} {s s' : Session R K} {e : Fault}
    (h : (perform logarithm line).run s = .error e s') : Follows s s' :=
  run_error_of_triple (@perform_shows R K _ _ s logarithm line) (Kept.refl s) h

theorem secondPass_ok_shows {logarithm : Bool} {lines : List String} {s s' : Session R K}
    (h : (secondPass logarithm lines).run s = .ok () s') :
    ((∃ line ∈ lines, Shows line) → Shown s') ∧ ((∀ line ∈ lines, ¬Shows line) → Kept s s') := by
  induction lines generalizing s with
  | nil =>
    rw [secondPass_nil] at h
    cases h
    refine ⟨?_, fun _ => Kept.refl _⟩
    rintro ⟨_, mem, -⟩
    cases mem
  | cons line lines ih =>
    cases hline : (perform logarithm line).run s with
    | error e s₁ =>
      rw [secondPass_cons, run_bind_of_error hline] at h
      cases h
    | ok _ s₁ =>
      rw [secondPass_cons_run hline] at h
      obtain ⟨shown, kept⟩ := perform_ok_shows hline
      obtain ⟨shownRest, keptRest⟩ := ih h
      constructor
      · rintro ⟨l, mem, showing⟩
        -- the last line that shows is either among the rest or this one
        by_cases later : ∃ l ∈ lines, Shows l
        · exact shownRest later
        · push Not at later
          rcases List.mem_cons.mp mem with rfl | mem
          · exact (shown showing).kept (keptRest later)
          · exact absurd showing (later l mem)
      · intro quiet
        exact (kept (quiet line List.mem_cons_self)).trans
          (keptRest fun l mem => quiet l (List.mem_cons_of_mem _ mem))

theorem secondPass_ok_follows {logarithm : Bool} {lines : List String} {s s' : Session R K}
    (h : (secondPass logarithm lines).run s = .ok () s') : Follows s s' := by
  obtain ⟨shown, kept⟩ := secondPass_ok_shows h
  by_cases showing : ∃ line ∈ lines, Shows line
  · exact .inr (shown showing)
  · push Not at showing
    exact .inl (kept showing)

theorem secondPass_follows (logarithm : Bool) (lines : List String) (s : Session R K) :
    Follows s (endSession ((secondPass logarithm lines).run s)) := by
  cases h : (secondPass logarithm lines).run s with
  | ok _ s' => exact secondPass_ok_follows h
  | error e s' =>
    obtain ⟨pre, line, post, s₁, -, passed, stops⟩ := secondPass_error h
    exact (secondPass_ok_follows passed).trans (perform_error_follows stops)

/-! ## How the register starts -/

theorem mem_settingWords {w : String} : w ∈ settingWords ↔ w = "init" ∨ w = "verbose" ∨
    w = "plot" ∨ w = "printout" ∨ w = "Inverse_P_threshold" ∨ w = "N&m" := by
  simp [settingWords]

-- the match on the setting words unfolds into a deep chain of string comparisons
set_option maxRecDepth 40000 in
theorem readSetting_start (word : String) (o : Operands) (s₀ : Session R K) :
    ⦃fun s => ⌜s = s₀ ∧ word ∈ settingWords⌝⦄ (readSetting word o : Run R K Unit)
    ⦃⇓? _ s => ⌜s.start = .ground ↔ s₀.start = .ground ∧ word ≠ "init" ∧ word ≠ "N&m"⌝⦄ := by
  unfold readSetting
  split <;> mvcgen [checkPrintable, realOfInt, emit, fail] with grind [mem_settingWords]

theorem sizingWords_keep_start : ∀ w ∈ sizingWords, w ≠ "init" ∧ w ≠ "N&m" := by decide

theorem survey_start (line : String) (s₀ : Session R K) :
    ⦃fun s => ⌜s = s₀⌝⦄ (survey line : Run R K Unit)
    ⦃⇓? _ s => ⌜s.start = .ground ↔ s₀.start = .ground ∧ ¬ChoosesStart line⌝⦄ := by
  unfold survey operandsOf ChoosesStart
  mvcgen -trivial [reach, Script.ofExcept, readSetting_start] with
    grind [sizingWords_keep_start, mem_settingWords]

theorem firstPass_start (lines : List String) (s₀ : Session R K) :
    ⦃fun s => ⌜s = s₀⌝⦄ (firstPass lines : Run R K Unit)
    ⦃⇓? _ s => ⌜s.start = .ground ↔ s₀.start = .ground ∧ ∀ line ∈ lines, ¬ChoosesStart line⌝⦄ := by
  unfold firstPass
  mvcgen [survey_start] invariants
  · ⇓?⟨cur, _⟩ s =>
      ⌜s.start = .ground ↔ s₀.start = .ground ∧ ∀ line ∈ cur.prefix, ¬ChoosesStart line⌝
  with grind

theorem prepare_report (g : Random.Twister) {s₁ : Session R K} (fresh : s₁.report = none) :
    ⦃fun s => ⌜s = s₁⌝⦄ (prepare g : Run R K Unit)
    ⦃⇓? _ s => ⌜ReportIsState s ∧ (s.report = none ↔ s₁.start = .ground)⌝⦄ := by
  mvcgen [prepare, checkPrintable, emit, Script.ofExcept, setState, fail] with
    grind [ReportIsState]

/-! ## The final reports -/

def ReadsReport (s : Session R K) : Prop :=
  s.printout = 1 ∨ s.measured.any id = true ∨ s.plot = 1

section Reports

variable {n : ℕ}

theorem conclude_reads_report {s₂ : Session R K} (ready : Allocated n s₂) :
    ⦃fun s => ⌜s = s₂⌝⦄ (conclude : Run R K Unit)
    ⦃post⟨fun _ _ => ⌜¬(s₂.report = none ∧ ReadsReport s₂)⌝,
      fun e _ => ⌜e = .unboundGlobal "C" ∧ s₂.report = none ∧ ReadsReport s₂⌝⟩⦄ := by
  mvcgen [conclude, reportState, emit, fail, finalListing_completes, marginalReport_completes] with
    grind [ReadsReport, allocated_iff, → OnlyPrinted.report, OnlyPrinted.push, OnlyPrinted.refl]

theorem conclude_stops_iff {s₂ : Session R K} (ready : Allocated n s₂) :
    ((∃ e s, conclude.run s₂ = .error e s) ↔ s₂.report = none ∧ ReadsReport s₂) ∧
      ∀ e s, conclude.run s₂ = .error e s → e = .unboundGlobal "C" := by
  have ends := triple_iff.mp (conclude_reads_report ready) s₂ rfl
  cases h : (conclude : Run R K Unit).run s₂ with
  | ok _ s =>
    rw [h] at ends
    exact ⟨⟨fun ⟨_, _, stops⟩ => (nomatch stops), fun reads => absurd reads ends⟩,
      fun _ _ stops => nomatch stops⟩
  | error e s =>
    rw [h] at ends
    obtain ⟨name, unset, reads⟩ := ends
    refine ⟨⟨fun _ => ⟨unset, reads⟩, fun _ => ⟨e, s, rfl⟩⟩, fun e' s' stops => ?_⟩
    cases stops
    exact name

end Reports

/-! ## Whole runs -/

/-- Whatever lines the second pass runs from the prepared session, wherever it ends, at its last
line or at a fault, the vector the final reports read is, once set, the state vector; and every
line of the program either shows a gate's result, as its text says, or touches neither vector.
After a second pass over the program that returns, the report is unset exactly when no line
chose how the register starts (so it started in `|0…0⟩`) and no line showed a gate's result.
The final reports then read the final state: they stop exactly when the report is unset and one
of them runs, and then with `NameError` on it. -/
theorem runProgram_report_tracks_state (logarithm : Bool) (seed : ℤ) (text : String)
    {s₁ s₀ : Session R K}
    (surveyed : (firstPass (Text.fileLines text)).run Session.initial = .ok () s₁)
    (prepared : (prepare (Random.Twister.seeded seed)).run s₁ = .ok () s₀) :
    (∀ lines, ReportIsState (endSession ((secondPass logarithm lines).run s₀))) ∧
    (∀ line ∈ Text.fileLines text, ∀ s s' : Session R K, (perform logarithm line).run s = .ok () s' →
      (Shows line → Shown s') ∧ (¬Shows line → Kept s s')) ∧
    ∀ s₂, (secondPass logarithm (Text.fileLines text)).run s₀ = .ok () s₂ →
      (s₂.report = none ↔ ∀ line ∈ Text.fileLines text, ¬ChoosesStart line ∧ ¬Shows line) ∧
      ((∃ e s, conclude.run s₂ = .error e s) ↔ s₂.report = none ∧ ReadsReport s₂) ∧
      ∀ e s, conclude.run s₂ = .error e s → e = .unboundGlobal "C" := by
  obtain ⟨⟨-, -, fresh⟩, fits⟩ :=
    run_ok_of_partial (firstPass_spec (Text.fileLines text) Session.initial) rfl surveyed
  have start := run_ok_of_partial (firstPass_start (Text.fileLines text) Session.initial) rfl
    surveyed
  obtain ⟨agrees, unset⟩ := @run_ok_of_partial _ _ _ (prepare (Random.Twister.seeded seed))
    (fun s => s = s₁) (fun _ s => ReportIsState s ∧ (s.report = none ↔ s₁.start = .ground))
    (@prepare_report R K _ _ _ s₁ fresh) _ _ _ rfl prepared
  refine ⟨fun lines => agrees.follows (secondPass_follows logarithm lines s₀),
    fun _ _ _ _ => perform_ok_shows, fun s₂ passed => ?_⟩
  obtain ⟨shown, kept⟩ := secondPass_ok_shows passed
  refine ⟨⟨fun none => ?_, fun quiet => ?_⟩,
    conclude_stops_iff (secondPass_allocated fits (prepare_allocated _ fresh prepared) passed)⟩
  · -- a line that showed a result would have set the report, so none did, and the report was
    -- unset since the preparation, which leaves it unset only on a start in `|0…0⟩`
    have noShow : ∀ line ∈ Text.fileLines text, ¬Shows line := by
      intro line mem showing
      obtain ⟨b, -, report⟩ := shown ⟨line, mem, showing⟩
      rw [none] at report
      cases report
    have ground := unset.mp ((kept noShow).2.symm.trans none)
    exact fun line mem => ⟨(start.mp ground).2 line mem, noShow line mem⟩
  · have ground := start.mpr ⟨rfl, fun line mem => (quiet line mem).1⟩
    exact (kept fun line mem => (quiet line mem).2).2.trans (unset.mpr ground)

theorem runProgram_report_tracks_state_flip : ∃ s₁ s₀ : Session ℝ ℂ,
    (firstPass (Text.fileLines "x q[0];\n")).run Session.initial = .ok () s₁ ∧
    (prepare (Random.Twister.seeded 0)).run s₁ = .ok () s₀ ∧
    (∀ lines, ReportIsState (endSession ((secondPass true lines).run s₀))) ∧
    (∀ line ∈ Text.fileLines "x q[0];\n", ∀ s s' : Session ℝ ℂ,
      (perform true line).run s = .ok () s' →
      (Shows line → Shown s') ∧ (¬Shows line → Kept s s')) ∧
    ∀ s₂, (secondPass true (Text.fileLines "x q[0];\n")).run s₀ = .ok () s₂ →
      (s₂.report = none ↔ ∀ line ∈ Text.fileLines "x q[0];\n", ¬ChoosesStart line ∧ ¬Shows line) ∧
      ((∃ e s, conclude.run s₂ = .error e s) ↔ s₂.report = none ∧ ReadsReport s₂) ∧
      ∀ e s, conclude.run s₂ = .error e s → e = .unboundGlobal "C" := by
  -- the first pass runs on texts and integers only, so the kernel evaluates it
  obtain ⟨_, s₁, surveyed, checked⟩ := @exists_ok_of_check Fault (Session ℝ ℂ) Unit
    (fun s => decide (s.size = 1) && match s.start with | .ground => true | _ => false)
    ((firstPass (Text.fileLines "x q[0];\n") : Run ℝ ℂ Unit).run Session.initial)
    (by decide +kernel)
  have small : s₁.size < 59 := by simp_all
  have ground : s₁.start = .ground := by
    cases start : s₁.start <;> simp_all
  obtain ⟨s₀, prepared⟩ := prepare_ground_ok (Random.Twister.seeded 0) ground small
  exact ⟨s₁, s₀, surveyed, prepared,
    runProgram_report_tracks_state true 0 "x q[0];\n" surveyed prepared⟩

end Qubits.Script
