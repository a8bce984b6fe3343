import Qubits.Proofs.BasisIndex

/-!
# One bit of an integer of any sign

Integers are read in two's complement, as `Int.testBit` reads them: a negative integer `v` has
the bits of `-v - 1` inverted, so that from some position up all its bits are set. Setting bit
`b` is the bitwise or with `1 <<< b`, and clearing it the bitwise and with the complement of
`1 <<< b` (`set_eq_lor`, `clear_eq_land`); either changes bit `b` alone (`testBit_set`,
`testBit_clear`), whatever the sign.

The indices of an `n`-qubit register are the integers whose bits from `n` up are all clear
(`mem_register_iff`). Setting or clearing a bit below `n` keeps an index inside the register, and
so does taking its partner across that bit: the index with the bit set where it is clear and
cleared where it is set, which is its exclusive or with `2 ^ b` and an involution. A bit position
below zero is a `ValueError` (`set_clear_change_one_bit`).
-/

namespace Qubits.Bits

@[simp] theorem testBit_natCast (w i : ℕ) : (w : ℤ).testBit i = w.testBit i := rfl

@[simp] theorem testBit_negSucc (w i : ℕ) : (Int.negSucc w).testBit i = !w.testBit i := rfl

theorem testBit_of_le {w m : ℕ} (h : w ≤ m) : w.testBit m = false :=
  Nat.testBit_lt_two_pow (lt_of_lt_of_le w.lt_two_pow_self (Nat.pow_le_pow_right two_pos h))

theorem int_eq_of_testBit_eq {x y : ℤ} (h : ∀ i, x.testBit i = y.testBit i) : x = y := by
  cases x with
  | ofNat w =>
    cases y with
    | ofNat u => exact congrArg _ (Nat.eq_of_testBit_eq h)
    | negSucc u =>
      have far := h (w + u)
      simp [testBit_of_le (Nat.le_add_right w u), testBit_of_le (Nat.le_add_left u w)] at far
  | negSucc w =>
    cases y with
    | ofNat u =>
      have far := h (w + u)
      simp [testBit_of_le (Nat.le_add_right w u), testBit_of_le (Nat.le_add_left u w)] at far
    | negSucc u =>
      have same : w = u := Nat.eq_of_testBit_eq fun i => by simpa using h i
      rw [same]

@[simp] theorem testBit_set (v : ℤ) (b i : ℕ) :
    (set v b).testBit i = (v.testBit i || decide (i = b)) := by
  cases v with
  | ofNat w => exact testBit_setNat w b i
  | negSucc w =>
    -- the bits of a negative integer are those of its magnitude less one, inverted
    show (!(clearNat w b).testBit i) = (!w.testBit i || decide (i = b))
    by_cases hi : i = b <;> simp [hi]

@[simp] theorem testBit_clear (v : ℤ) (b i : ℕ) :
    (clear v b).testBit i = (v.testBit i && decide (i ≠ b)) := by
  cases v with
  | ofNat w => exact testBit_clearNat w b i
  | negSucc w =>
    show (!(setNat w b).testBit i) = (!w.testBit i && decide (i ≠ b))
    by_cases hi : i = b <;> simp [hi]

@[simp] theorem testBit_one_shiftLeft (b i : ℕ) : (1 <<< (b : ℤ)).testBit i = decide (i = b) := by
  rw [Int.one_shiftLeft, testBit_natCast, Nat.testBit_two_pow, decide_eq_decide]
  exact eq_comm

@[simp] theorem testBit_complement (x : ℤ) (i : ℕ) : (~~~x).testBit i = !x.testBit i := by
  cases x <;> simp [Complement.complement, Int.not]

theorem set_eq_lor (v : ℤ) (b : ℕ) : set v b = Int.lor v (1 <<< (b : ℤ)) :=
  int_eq_of_testBit_eq fun i => by rw [testBit_set, Int.testBit_lor, testBit_one_shiftLeft]

theorem clear_eq_land (v : ℤ) (b : ℕ) : clear v b = Int.land v (~~~(1 <<< (b : ℤ))) :=
  int_eq_of_testBit_eq fun i => by
    rw [testBit_clear, Int.testBit_land, testBit_complement, testBit_one_shiftLeft,
      decide_not]

theorem position_of_neg {b : ℤ} (hb : b < 0) : position b = .error .negativeShift := by
  simp [position, hb]

@[simp] theorem setAt_natCast (v : ℤ) (b : ℕ) : setAt v b = .ok (set v b) := by
  simp [setAt, position, show ¬(b : ℤ) < 0 by omega]

@[simp] theorem clearAt_natCast (v : ℤ) (b : ℕ) : clearAt v b = .ok (clear v b) := by
  simp [clearAt, position, show ¬(b : ℤ) < 0 by omega]

theorem setAt_of_neg (v : ℤ) {b : ℤ} (hb : b < 0) : setAt v b = .error .negativeShift := by
  simp [setAt, position_of_neg hb]

theorem clearAt_of_neg (v : ℤ) {b : ℤ} (hb : b < 0) : clearAt v b = .error .negativeShift := by
  simp [clearAt, position_of_neg hb]

theorem mem_register_iff {x : ℤ} {n : ℕ} :
    (0 ≤ x ∧ x < 2 ^ n) ↔ ∀ i, n ≤ i → x.testBit i = false := by
  cases x with
  | ofNat w =>
    have cast : ((Int.ofNat w : ℤ) < 2 ^ n) ↔ w < 2 ^ n := by
      rw [Int.ofNat_eq_natCast]
      exact_mod_cast Iff.rfl
    rw [cast]
    constructor
    · rintro ⟨-, hw⟩ i hi
      exact Nat.testBit_lt_two_pow (lt_of_lt_of_le hw (Nat.pow_le_pow_right two_pos hi))
    · intro h
      exact ⟨Int.natCast_nonneg w, Nat.lt_pow_two_of_testBit w h⟩
  | negSucc w =>
    constructor
    · rintro ⟨nonneg, -⟩
      exact absurd nonneg (by simp)
    · intro h
      have far := h (n + w) (Nat.le_add_right n w)
      simp [testBit_of_le (Nat.le_add_left w n)] at far

theorem set_mem_register {n b : ℕ} {j : ℤ} (hb : b < n) (hj : 0 ≤ j ∧ j < 2 ^ n) :
    0 ≤ set j b ∧ set j b < 2 ^ n := by
  rw [mem_register_iff] at hj ⊢
  intro i hi
  simp [hj i hi, show i ≠ b by omega]

theorem clear_mem_register {n b : ℕ} {j : ℤ} (hj : 0 ≤ j ∧ j < 2 ^ n) :
    0 ≤ clear j b ∧ clear j b < 2 ^ n := by
  rw [mem_register_iff] at hj ⊢
  intro i hi
  simp [hj i hi]

/-- The partner of index `j` across bit `b`: `j` with the bit set where it is clear and cleared
where it is set. Every one-qubit gate on qubit `b` pairs the indices of its register so. -/
def partner (j : ℤ) (b : ℕ) : ℤ := if j.testBit b then clear j b else set j b

@[simp] theorem testBit_partner (j : ℤ) (b i : ℕ) :
    (partner j b).testBit i = (j.testBit i ^^ decide (i = b)) := by
  unfold partner
  by_cases hi : i = b
  · subst hi
    cases h : j.testBit i <;> simp [h]
  · split <;> simp [hi]

theorem partner_eq_xor (j : ℤ) (b : ℕ) : partner j b = Int.xor j (2 ^ b) := by
  have power : (2 : ℤ) ^ b = ((2 ^ b : ℕ) : ℤ) := by norm_cast
  refine int_eq_of_testBit_eq fun i => ?_
  rw [testBit_partner, Int.testBit_lxor, power, testBit_natCast, Nat.testBit_two_pow]
  simp [eq_comm]

@[simp] theorem partner_partner (j : ℤ) (b : ℕ) : partner (partner j b) b = j :=
  int_eq_of_testBit_eq fun i => by simp

theorem partner_natCast (j b : ℕ) : partner j b = flipNat j b :=
  int_eq_of_testBit_eq fun i => by simp

theorem partner_mem_register {n b : ℕ} {j : ℤ} (hb : b < n) (hj : 0 ≤ j ∧ j < 2 ^ n) :
    0 ≤ partner j b ∧ partner j b < 2 ^ n := by
  rw [mem_register_iff] at hj ⊢
  intro i hi
  simp [hj i hi, show i ≠ b by omega]

/-- Setting and clearing bit `b` of an integer of any sign, at a bit position `b ≥ 0`, return
the integer with bit `b` set or cleared and every other bit as it was. On an index of an
`n`-qubit register and a bit below `n` both, and the partner across the bit, stay in the register;
the partner is the exclusive or with `2 ^ b` and undoes itself. A negative bit position is a
`ValueError` for both. -/
theorem set_clear_change_one_bit :
    (∀ (v : ℤ) (b : ℕ), setAt v b = .ok (set v b) ∧ clearAt v b = .ok (clear v b) ∧
      ∀ i, (set v b).testBit i = (if i = b then true else v.testBit i) ∧
        (clear v b).testBit i = (if i = b then false else v.testBit i)) ∧
    (∀ (j : ℤ) (b : ℕ), partner j b = Int.xor j (2 ^ b) ∧ partner (partner j b) b = j) ∧
    (∀ (n b : ℕ) (j : ℤ), b < n → 0 ≤ j → j < 2 ^ n →
      (0 ≤ set j b ∧ set j b < 2 ^ n) ∧ (0 ≤ clear j b ∧ clear j b < 2 ^ n) ∧
        (0 ≤ partner j b ∧ partner j b < 2 ^ n)) ∧
    (∀ v b : ℤ, b < 0 →
      ∃ f : Fault, setAt v b = .error f ∧ clearAt v b = .error f ∧ f.kind = "ValueError") := by
  refine ⟨fun v b => ⟨setAt_natCast v b, clearAt_natCast v b, fun i => ?_⟩,
    fun j b => ⟨partner_eq_xor j b, partner_partner j b⟩,
    fun n b j hb nonneg below => ?_,
    fun v b hb => ⟨.negativeShift, setAt_of_neg v hb, clearAt_of_neg v hb, rfl⟩⟩
  · by_cases hi : i = b <;> simp [hi]
  · exact ⟨set_mem_register hb ⟨nonneg, below⟩, clear_mem_register ⟨nonneg, below⟩,
      partner_mem_register hb ⟨nonneg, below⟩⟩

theorem set_clear_change_one_bit_three_qubits :
    ((1 : ℕ) < 3 ∧ (0 : ℤ) ≤ 5 ∧ (5 : ℤ) < 2 ^ 3) ∧
      ((0 ≤ set 5 1 ∧ set 5 1 < 2 ^ 3) ∧ (0 ≤ clear 5 1 ∧ clear 5 1 < 2 ^ 3) ∧
        (0 ≤ partner 5 1 ∧ partner 5 1 < 2 ^ 3)) ∧
      ((-1 : ℤ) < 0 ∧ ∃ f : Fault, setAt (-6) (-1) = .error f ∧ clearAt (-6) (-1) = .error f ∧
        f.kind = "ValueError") :=
  ⟨by norm_num, set_clear_change_one_bit.2.2.1 3 1 5 (by norm_num) (by norm_num) (by norm_num),
    by norm_num, set_clear_change_one_bit.2.2.2 (-6) (-1) (by norm_num)⟩

end Qubits.Bits
