import Mathlib

namespace Qubits

open Std.Do

def endSession {ε σ α : Type} : EStateM.Result ε σ α → σ
  | .ok _ s => s
  | .error _ s => s

section
variable {ε σ α : Type} {x : EStateM ε σ α}

theorem triple_iff {P : σ → Prop} {Q : α → σ → Prop} {E : ε → σ → Prop} :
    ⦃fun s => ⌜P s⌝⦄ x ⦃post⟨fun a s => ⌜Q a s⌝, fun e s => ⌜E e s⌝⟩⦄ ↔
      ∀ s, P s → match x.run s with
        | .ok a s' => Q a s'
        | .error e s' => E e s' := by
  constructor
  · intro h s hs
    have holds := h s hs
    cases hx : x.run s <;> simp_all [WP.wp, PredTrans.apply, EStateM.run]
  · intro h s hs
    have holds := h s hs
    simp only [EStateM.run] at holds
    split at holds <;> simp_all [WP.wp, PredTrans.apply, EStateM.run]

theorem triple_of_pure {P : σ → Prop} {φ : Prop} {Q : α → σ → Prop} {E : ε → σ → Prop}
    (h : φ → ⦃fun s => ⌜P s⌝⦄ x ⦃post⟨fun a s => ⌜Q a s⌝, fun e s => ⌜E e s⌝⟩⦄) :
    ⦃fun s => ⌜P s ∧ φ⌝⦄ x ⦃post⟨fun a s => ⌜Q a s⌝, fun e s => ⌜E e s⌝⟩⦄ :=
  triple_iff.mpr fun s ⟨hs, hφ⟩ => triple_iff.mp (h hφ) s hs

theorem endSession_of_triple {P I : σ → Prop}
    (h : ⦃fun s => ⌜P s⌝⦄ x ⦃post⟨fun _ s => ⌜I s⌝, fun _ s => ⌜I s⌝⟩⦄) {s : σ} (hs : P s) :
    I (endSession (x.run s)) := by
  have ends := triple_iff.mp h s hs
  split at ends <;> simp [endSession, *]

theorem run_ok_of_triple {P : σ → Prop} {Q : α → σ → Prop} {E : ε → σ → Prop}
    (h : ⦃fun s => ⌜P s⌝⦄ x ⦃post⟨fun a s => ⌜Q a s⌝, fun e s => ⌜E e s⌝⟩⦄) {s s' : σ} {a : α}
    (hs : P s) (hx : x.run s = .ok a s') : Q a s' := by
  have ends := triple_iff.mp h s hs
  rwa [hx] at ends

theorem run_error_of_triple {P : σ → Prop} {Q : α → σ → Prop} {E : ε → σ → Prop}
    (h : ⦃fun s => ⌜P s⌝⦄ x ⦃post⟨fun a s => ⌜Q a s⌝, fun e s => ⌜E e s⌝⟩⦄) {s s' : σ} {e : ε}
    (hs : P s) (hx : x.run s = .error e s') : E e s' := by
  have ends := triple_iff.mp h s hs
  rwa [hx] at ends

theorem run_ok_of_partial {P : σ → Prop} {Q : α → σ → Prop}
    (h : ⦃fun s => ⌜P s⌝⦄ x ⦃⇓? a s => ⌜Q a s⌝⦄) {s s' : σ} {a : α} (hs : P s)
    (hx : x.run s = .ok a s') : Q a s' :=
  run_ok_of_triple h hs hx

theorem exists_run_ok {P : σ → Prop} {Q : α → σ → Prop} (h : ⦃fun s => ⌜P s⌝⦄ x ⦃⇓ a s => ⌜Q a s⌝⦄)
    {s : σ} (hs : P s) : ∃ a s', x.run s = .ok a s' ∧ Q a s' := by
  have ends := triple_iff.mp h s hs
  split at ends
  · exact ⟨_, _, by assumption, ends⟩
  · exact ends.elim

theorem exists_run_error {P : σ → Prop} {E : ε → σ → Prop}
    (h : ⦃fun s => ⌜P s⌝⦄ x ⦃post⟨fun _ _ => ⌜False⌝, fun e s => ⌜E e s⌝⟩⦄) {s : σ} (hs : P s) :
    ∃ e s', x.run s = .error e s' ∧ E e s' := by
  have ends := triple_iff.mp h s hs
  split at ends
  · exact ends.elim
  · exact ⟨_, _, by assumption, ends⟩

theorem exists_ok_of_check {p : σ → Bool} {r : EStateM.Result ε σ α}
    (h : (match r with | .ok _ s => p s | .error _ _ => false) = true) :
    ∃ a s, r = .ok a s ∧ p s = true := by
  cases r with
  | ok a s => exact ⟨a, s, rfl, h⟩
  | error e s => cases h

theorem run_bind_of_ok {β : Type} {f : α → EStateM ε σ β} {s s' : σ} {a : α}
    (h : x.run s = .ok a s') : (x >>= f).run s = (f a).run s' := by
  simp only [EStateM.run] at h ⊢
  show (match x s with | .ok a s => f a s | .error e s => .error e s) = _
  rw [h]

theorem run_bind_of_error {β : Type} {f : α → EStateM ε σ β} {s s' : σ} {e : ε}
    (h : x.run s = .error e s') : (x >>= f).run s = .error e s' := by
  simp only [EStateM.run] at h ⊢
  show (match x s with | .ok a s => f a s | .error e s => .error e s) = _
  rw [h]

theorem run_bind_error {β : Type} {f : α → EStateM ε σ β} {s s' : σ} {e : ε}
    (h : (x >>= f).run s = .error e s') :
    x.run s = .error e s' ∨ ∃ a s₁, x.run s = .ok a s₁ ∧ (f a).run s₁ = .error e s' := by
  cases hx : x.run s with
  | ok a s₁ =>
    rw [run_bind_of_ok hx] at h
    exact .inr ⟨a, s₁, rfl, h⟩
  | error e' s₁ =>
    rw [run_bind_of_error hx] at h
    cases h
    exact .inl rfl

end

end Qubits
