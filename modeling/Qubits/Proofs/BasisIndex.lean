import Mathlib
import Qubits.Bits

namespace Qubits.Bits

theorem testBit_add_two_pow {w b : ℕ} (hb : w.testBit b = false) (i : ℕ) :
    (w + 2 ^ b).testBit i = (w.testBit i || decide (i = b)) := by
  -- split `w` at bit `b + 1`: the low part has bit `b` clear, so adding `2^b` stays inside it
  have hlow : w % 2 ^ (b + 1) < 2 ^ b := by
    apply Nat.lt_pow_two_of_testBit
    intro j hj
    rw [Nat.testBit_mod_two_pow]
    rcases Nat.lt_or_ge j (b + 1) with below | above
    · obtain rfl : j = b := by omega
      simp [hb]
    · simp [show ¬j < b + 1 by omega]
  have split : w = 2 ^ (b + 1) * (w / 2 ^ (b + 1)) + w % 2 ^ (b + 1) :=
    (Nat.div_add_mod _ _).symm
  have sum : w + 2 ^ b = 2 ^ (b + 1) * (w / 2 ^ (b + 1)) + (w % 2 ^ (b + 1) + 2 ^ b) := by
    rw [← add_assoc, ← split]
  have fits : w % 2 ^ (b + 1) + 2 ^ b < 2 ^ (b + 1) := by
    have double : 2 ^ (b + 1) = 2 * 2 ^ b := by ring
    omega
  rw [sum, Nat.testBit_two_pow_mul_add _ fits, ← Nat.or_two_pow_eq_add_of_lt hlow]
  conv_rhs => rw [split, Nat.testBit_two_pow_mul_add _ (Nat.mod_lt _ (by positivity))]
  by_cases hi : i < b + 1
  · simp [hi, Nat.testBit_two_pow, eq_comm]
  · simp [hi, show i ≠ b by omega]

theorem testBit_sub_two_pow {w b : ℕ} (hb : w.testBit b = true) (i : ℕ) :
    (w - 2 ^ b).testBit i = (w.testBit i && decide (i ≠ b)) := by
  have hle : 2 ^ b ≤ w := Nat.ge_two_pow_of_testBit hb
  have cleared : (w - 2 ^ b).testBit b = false := by
    have h := Nat.testBit_two_pow_add_eq (w - 2 ^ b) b
    rw [Nat.add_sub_cancel' hle, hb] at h
    simpa using h.symm
  have restored := testBit_add_two_pow cleared i
  rw [Nat.sub_add_cancel hle] at restored
  by_cases hi : i = b
  · subst hi
    simp [cleared]
  · simp [restored, hi]

@[simp] theorem testBit_setNat (w b i : ℕ) :
    (setNat w b).testBit i = (w.testBit i || decide (i = b)) := by
  unfold setNat
  cases hb : w.testBit b
  · simp [Nat.pow_eq, testBit_add_two_pow hb]
  · by_cases hi : i = b
    · simp [hi, hb]
    · simp [hi]

@[simp] theorem testBit_clearNat (w b i : ℕ) :
    (clearNat w b).testBit i = (w.testBit i && decide (i ≠ b)) := by
  unfold clearNat
  cases hb : w.testBit b
  · by_cases hi : i = b
    · simp [hi, hb]
    · simp [hi]
  · simp [Nat.pow_eq, testBit_sub_two_pow hb]

theorem setNat_of_testBit {w b : ℕ} (hb : w.testBit b = true) : setNat w b = w := by
  simp [setNat, hb]

theorem clearNat_of_testBit {w b : ℕ} (hb : w.testBit b = false) : clearNat w b = w := by
  simp [clearNat, hb]

theorem setNat_eq_add {w b : ℕ} (hb : w.testBit b = false) : setNat w b = w + 2 ^ b := by
  simp [setNat, hb, Nat.pow_eq]

theorem clearNat_le (w b : ℕ) : clearNat w b ≤ w := by
  unfold clearNat
  split <;> omega

theorem setNat_lt {n w b : ℕ} (hw : w < 2 ^ n) (hb : b < n) : setNat w b < 2 ^ n := by
  apply Nat.lt_pow_two_of_testBit
  intro i hi
  simp [Nat.testBit_lt_two_pow (lt_of_lt_of_le hw (Nat.pow_le_pow_right two_pos hi)),
    show i ≠ b by omega]

theorem clearNat_lt {n w b : ℕ} (hw : w < 2 ^ n) : clearNat w b < 2 ^ n :=
  lt_of_le_of_lt (clearNat_le w b) hw

@[simp] theorem clearNat_setNat (w b : ℕ) : clearNat (setNat w b) b = clearNat w b :=
  Nat.eq_of_testBit_eq fun i => by by_cases hi : i = b <;> simp [hi]

@[simp] theorem setNat_clearNat (w b : ℕ) : setNat (clearNat w b) b = setNat w b :=
  Nat.eq_of_testBit_eq fun i => by by_cases hi : i = b <;> simp [hi]

@[simp] theorem setNat_setNat (w b : ℕ) : setNat (setNat w b) b = setNat w b :=
  Nat.eq_of_testBit_eq fun i => by simp

@[simp] theorem clearNat_clearNat (w b : ℕ) : clearNat (clearNat w b) b = clearNat w b :=
  Nat.eq_of_testBit_eq fun i => by simp

theorem clearNat_setNat_comm {b c : ℕ} (h : b ≠ c) (w : ℕ) :
    clearNat (setNat w b) c = setNat (clearNat w c) b :=
  Nat.eq_of_testBit_eq fun i => by by_cases hi : i = b <;> simp [hi, h]

theorem setNat_comm (w b c : ℕ) : setNat (setNat w b) c = setNat (setNat w c) b :=
  Nat.eq_of_testBit_eq fun i => by simp only [testBit_setNat, Bool.or_right_comm]

theorem clearNat_comm (w b c : ℕ) : clearNat (clearNat w b) c = clearNat (clearNat w c) b :=
  Nat.eq_of_testBit_eq fun i => by simp only [testBit_clearNat, Bool.and_right_comm]

theorem eq_or_eq_of_clearNat_eq {i j b : ℕ} (h : clearNat j b = clearNat i b) :
    j = clearNat i b ∨ j = setNat i b := by
  cases hj : j.testBit b
  · left
    rw [← h, clearNat_of_testBit hj]
  · right
    calc j = setNat (clearNat j b) b := by rw [setNat_clearNat, setNat_of_testBit hj]
      _ = setNat i b := by rw [h, setNat_clearNat]

theorem clearNat_ne_setNat (w b : ℕ) : clearNat w b ≠ setNat w b := by
  intro h
  have := congrArg (Nat.testBit · b) h
  simp at this

def flipNat (w b : ℕ) : ℕ := if w.testBit b then clearNat w b else setNat w b

@[simp] theorem testBit_flipNat (w b i : ℕ) :
    (flipNat w b).testBit i = (w.testBit i ^^ decide (i = b)) := by
  unfold flipNat
  cases hb : w.testBit b <;> by_cases hi : i = b <;> simp [hi, hb]

@[simp] theorem flipNat_flipNat (w b : ℕ) : flipNat (flipNat w b) b = w :=
  Nat.eq_of_testBit_eq fun i => by simp

theorem flipNat_lt {n w b : ℕ} (hw : w < 2 ^ n) (hb : b < n) : flipNat w b < 2 ^ n := by
  unfold flipNat
  split
  · exact clearNat_lt hw
  · exact setNat_lt hw hb

theorem flipNat_eq_xor (w b : ℕ) : flipNat w b = w ^^^ 2 ^ b :=
  Nat.eq_of_testBit_eq fun i => by simp [Nat.testBit_two_pow, eq_comm]

theorem flipNat_comm (w b c : ℕ) : flipNat (flipNat w b) c = flipNat (flipNat w c) b :=
  Nat.eq_of_testBit_eq fun i => by simp only [testBit_flipNat, Bool.xor_right_comm]

theorem sum_pairs {M : Type} [AddCommMonoid M] {n b : ℕ} (hb : b < n) (g : ℕ → M) :
    ∑ i ∈ Finset.range (2 ^ n), g i =
      ∑ i ∈ (Finset.range (2 ^ n)).filter (fun i => i.testBit b = false),
        (g i + g (setNat i b)) := by
  rw [Finset.sum_add_distrib, ← Finset.sum_filter_add_sum_filter_not _ (fun i => i.testBit b = false)]
  congr 1
  -- the indices with bit `b` set are the images of those with it clear
  apply Finset.sum_nbij' (fun i => clearNat i b) (fun i => setNat i b)
  · intro i hi
    simp only [Finset.mem_filter, Finset.mem_range, Bool.not_eq_false] at hi ⊢
    exact ⟨clearNat_lt hi.1, by simp⟩
  · intro i hi
    simp only [Finset.mem_filter, Finset.mem_range, Bool.not_eq_false] at hi ⊢
    exact ⟨setNat_lt hi.1 hb, by simp⟩
  · intro i hi
    simp only [Finset.mem_filter, Bool.not_eq_false] at hi
    simp [setNat_of_testBit hi.2]
  · intro i hi
    simp only [Finset.mem_filter] at hi
    simp [clearNat_of_testBit hi.2]
  · intro i hi
    simp only [Finset.mem_filter, Bool.not_eq_false] at hi
    simp [setNat_of_testBit hi.2]

theorem sum_flipNat {M : Type} [AddCommMonoid M] {n b : ℕ} (hb : b < n) (g : ℕ → M) :
    ∑ i ∈ Finset.range (2 ^ n), g (flipNat i b) = ∑ i ∈ Finset.range (2 ^ n), g i :=
  Finset.sum_nbij' (fun i => flipNat i b) (fun i => flipNat i b)
    (fun i hi => by simpa using flipNat_lt (Finset.mem_range.mp hi) hb)
    (fun i hi => by simpa using flipNat_lt (Finset.mem_range.mp hi) hb)
    (fun i _ => flipNat_flipNat i b) (fun i _ => flipNat_flipNat i b) (fun _ _ => rfl)

end Qubits.Bits
