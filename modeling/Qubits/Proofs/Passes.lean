import Qubits.Script.Program
import Qubits.Proofs.Runs

namespace Qubits.Script

open Std.Do

set_option mvcgen.warning false

variable {R K : Type} [RealScalar R] [Amplitude R K]

@[simp] theorem secondPass_nil (logarithm : Bool) :
    (secondPass logarithm [] : Run R K Unit) = pure () := by
  simp [secondPass]

theorem secondPass_cons (logarithm : Bool) (line : String) (lines : List String) :
    (secondPass logarithm (line :: lines) : Run R K Unit) =
      (perform logarithm line >>= fun _ => secondPass logarithm lines) := by
  simp [secondPass]

theorem secondPass_cons_run {logarithm : Bool} {line : String} {lines : List String}
    {s s₁ : Session R K} (h : (perform logarithm line).run s = .ok () s₁) :
    (secondPass logarithm (line :: lines)).run s = (secondPass logarithm lines).run s₁ := by
  rw [secondPass_cons, run_bind_of_ok h]

theorem secondPass_append_run {logarithm : Bool} {pre post : List String} {s s₁ : Session R K}
    (h : (secondPass logarithm pre).run s = .ok () s₁) :
    (secondPass logarithm (pre ++ post)).run s = (secondPass logarithm post).run s₁ := by
  induction pre generalizing s with
  | nil =>
    rw [secondPass_nil] at h
    cases h
    rfl
  | cons line pre ih =>
    rw [secondPass_cons] at h
    cases hline : (perform logarithm line).run s with
    | ok _ s₂ =>
      rw [run_bind_of_ok hline] at h
      rw [List.cons_append, secondPass_cons_run hline, ih h]
    | error e s₂ =>
      rw [run_bind_of_error hline] at h
      cases h

theorem secondPass_error {logarithm : Bool} {lines : List String} {s s' : Session R K} {e : Fault}
    (h : (secondPass logarithm lines).run s = .error e s') :
    ∃ pre line post s₁, lines = pre ++ line :: post ∧
      (secondPass logarithm pre).run s = .ok () s₁ ∧ (perform logarithm line).run s₁ = .error e s' := by
  induction lines generalizing s with
  | nil =>
    rw [secondPass_nil] at h
    cases h
  | cons line lines ih =>
    rw [secondPass_cons] at h
    rcases run_bind_error h with here | ⟨_, s₁, returned, rest⟩
    · exact ⟨[], line, lines, s, rfl, rfl, here⟩
    · obtain ⟨pre, line', post, s₂, split, before, stops⟩ := ih rest
      refine ⟨line :: pre, line', post, s₂, by rw [split, List.cons_append], ?_, stops⟩
      rw [secondPass_cons_run returned]
      exact before

theorem runProgram_after_firstPass {logarithm : Bool} {seed : ℤ} {text : String}
    {s₁ : Session R K}
    (surveyed : (firstPass (Text.fileLines text)).run Session.initial = .ok () s₁) :
    (runProgram logarithm seed text).run Session.initial =
      (prepare (Random.Twister.seeded seed) >>= fun _ =>
        secondPass logarithm (Text.fileLines text) >>= fun _ => conclude).run s₁ := by
  have unfolded : (runProgram logarithm seed text : Run R K Unit) =
      (firstPass (Text.fileLines text) >>= fun _ => prepare (Random.Twister.seeded seed) >>=
        fun _ => secondPass logarithm (Text.fileLines text) >>= fun _ => conclude) := rfl
  rw [unfolded, run_bind_of_ok surveyed]

theorem runProgram_run {logarithm : Bool} {seed : ℤ} {text : String} {s₁ s₀ : Session R K}
    (surveyed : (firstPass (Text.fileLines text)).run Session.initial = .ok () s₁)
    (prepared : (prepare (Random.Twister.seeded seed)).run s₁ = .ok () s₀) :
    (runProgram logarithm seed text).run Session.initial =
      (secondPass logarithm (Text.fileLines text) >>= fun _ => conclude).run s₀ := by
  rw [runProgram_after_firstPass surveyed, run_bind_of_ok prepared]

def OnlyPrinted (s₀ s : Session R K) : Prop := { s with printed := s₀.printed } = s₀

namespace OnlyPrinted

omit [RealScalar R] [Amplitude R K]

theorem refl (s : Session R K) : OnlyPrinted s s := rfl

theorem trans {s₀ s₁ s : Session R K} (h₀ : OnlyPrinted s₀ s₁) (h₁ : OnlyPrinted s₁ s) :
    OnlyPrinted s₀ s := by
  unfold OnlyPrinted at *
  rw [← h₀, ← h₁]

theorem push {s₀ s : Session R K} (l : Line R K) :
    OnlyPrinted s₀ { s with printed := s.printed.push l } ↔ OnlyPrinted s₀ s := Iff.rfl

theorem state {s₀ s : Session R K} (h : OnlyPrinted s₀ s) : s.state = s₀.state := by
  rw [← h]

theorem report {s₀ s : Session R K} (h : OnlyPrinted s₀ s) : s.report = s₀.report := by
  rw [← h]

end OnlyPrinted

theorem finalListing_prints (n : ℤ) (c : Array K) (threshold : R) (s₀ : Session R K) :
    ⦃fun s => ⌜OnlyPrinted s₀ s⌝⦄ (finalListing n c threshold : Run R K Unit)
    ⦃post⟨fun _ s => ⌜OnlyPrinted s₀ s⌝, fun _ s => ⌜OnlyPrinted s₀ s⌝⟩⦄ := by
  unfold finalListing
  mvcgen [emit, fail, Script.ofExcept] invariants
  · post⟨fun _ s => ⌜OnlyPrinted s₀ s⌝, fun _ s => ⌜OnlyPrinted s₀ s⌝⟩

theorem marginalReport_prints (n : ℤ) (c : Array K) (flags : Array Bool) (s₀ : Session R K) :
    ⦃fun s => ⌜OnlyPrinted s₀ s⌝⦄ (marginalReport n c flags : Run R K Unit)
    ⦃post⟨fun _ s => ⌜OnlyPrinted s₀ s⌝, fun _ s => ⌜OnlyPrinted s₀ s⌝⟩⦄ := by
  unfold marginalReport
  -- the loop over the outcomes follows both branches of the header line
  mvcgen [emit, fail, Script.ofExcept] invariants
  · post⟨fun _ s => ⌜OnlyPrinted s₀ s⌝, fun _ s => ⌜OnlyPrinted s₀ s⌝⟩
  · post⟨fun _ s => ⌜OnlyPrinted s₀ s⌝, fun _ s => ⌜OnlyPrinted s₀ s⌝⟩

theorem conclude_prints (s₀ : Session R K) :
    ⦃fun s => ⌜OnlyPrinted s₀ s⌝⦄ (conclude : Run R K Unit)
    ⦃post⟨fun _ s => ⌜OnlyPrinted s₀ s⌝, fun _ s => ⌜OnlyPrinted s₀ s⌝⟩⦄ := by
  mvcgen [conclude, reportState, emit, fail, finalListing_prints, marginalReport_prints] with
    grind [OnlyPrinted.push, OnlyPrinted.trans]

end Qubits.Script
