import Qubits.Proofs.BasisIndex

/-!
# Bit reversal and basis labels

Reversing the qubit order of an `n`-qubit register sends basis index `j` to `reverseBits n j`,
whose bit `m` is bit `n - 1 - m` of `j`; on `[0, 2 ^ n)` it is an involution
(`reverseBits_reverseBits`). The register computes it through text: it writes `j` as its `n`-bit
binary text, reads that text forwards to find `j` again (`readBinary_binary`) and backwards to
find the reversal. The text read backwards is the label of `j`, its bits with qubit 0 first
(`toList_label`), so it writes `reverseBits n j` (`readBinary_label`).

The listings of a run name basis state `k` by that label. On a register of at least one qubit the
label of an index has one character per qubit, and character `m` is the bit of qubit `m`
(`label_lists_qubits`): a one-qubit gate on qubit `m` pairs each index with the one that differs
in bit `m`, and the labels of the two differ in character `m` alone.
-/

namespace Qubits.Bits

open Finset

theorem reverseBits_eq_sum (n j : ℕ) :
    reverseBits n j = ∑ m ∈ range n, if j.testBit m then 2 ^ (n - 1 - m) else 0 := by
  -- the fold adds the terms of the sum one by one, for a fixed width `n`
  have fold : ∀ k, (List.range k).foldl
      (fun acc m => if j.testBit m then acc + Nat.pow 2 (n - 1 - m) else acc) 0 =
      ∑ m ∈ range k, if j.testBit m then 2 ^ (n - 1 - m) else 0 := by
    intro k
    induction k with
    | zero => simp
    | succ k ih =>
      rw [List.range_succ, List.foldl_append, ih, sum_range_succ]
      split <;> simp [*, Nat.pow_eq]
  exact fold n

theorem reverseBits_eq_sum_toNat (n j : ℕ) :
    reverseBits n j = ∑ m ∈ range n, (j.testBit m).toNat * 2 ^ (n - 1 - m) := by
  rw [reverseBits_eq_sum]
  apply sum_congr rfl
  intro m _
  cases j.testBit m <;> simp

theorem reverseBits_succ (n j : ℕ) :
    reverseBits (n + 1) j = 2 * reverseBits n j + (if j.testBit n then 1 else 0) := by
  rw [reverseBits_eq_sum, reverseBits_eq_sum, sum_range_succ, mul_sum]
  congr 1
  · apply sum_congr rfl
    intro m hm
    have below : m < n := mem_range.mp hm
    split
    · rw [show n + 1 - 1 - m = n - 1 - m + 1 by omega, pow_succ, mul_comm]
    · rfl
  · simp

@[simp] theorem testBit_reverseBits (n j i : ℕ) :
    (reverseBits n j).testBit i = (decide (i < n) && j.testBit (n - 1 - i)) := by
  induction n generalizing i with
  | zero => simp [reverseBits_eq_sum]
  | succ n ih =>
    rw [reverseBits_succ]
    cases i with
    | zero => split <;> simp [*, Nat.testBit_zero]
    | succ i =>
      have half : (2 * reverseBits n j + (if j.testBit n then 1 else 0)) / 2 = reverseBits n j := by
        split <;> omega
      rw [Nat.testBit_add_one, half, ih]
      simp only [Nat.add_lt_add_iff_right, show n + 1 - 1 - (i + 1) = n - 1 - i by omega]

theorem reverseBits_lt (n j : ℕ) : reverseBits n j < 2 ^ n :=
  Nat.lt_pow_two_of_testBit _ fun i hi => by simp [show ¬i < n by omega]

theorem reverseBits_reverseBits {n j : ℕ} (hj : j < 2 ^ n) :
    reverseBits n (reverseBits n j) = j := by
  apply Nat.eq_of_testBit_eq
  intro i
  by_cases hi : i < n
  · simp [hi, show n - 1 - (n - 1 - i) = i by omega, show n - 1 - i < n by omega]
  · simp [hi, Nat.testBit_lt_two_pow
      (lt_of_lt_of_le hj (Nat.pow_le_pow_right two_pos (show n ≤ i by omega)))]


def bitChar (b : Bool) : Char := if b then '1' else '0'

theorem digitChar_mod_two (j : ℕ) : (j % 2).digitChar = bitChar (j.testBit 0) := by
  rcases Nat.mod_two_eq_zero_or_one j with h | h <;> simp [bitChar, Nat.testBit_zero, h]

theorem reverse_toDigits_two (j : ℕ) :
    (Nat.toDigits 2 j).reverse =
      (List.range (Nat.toDigits 2 j).length).map fun m => bitChar (j.testBit m) := by
  induction j using Nat.strong_induction_on with
  | _ j ih =>
    by_cases small : j < 2
    · rw [Nat.toDigits_of_lt_base small, ← Nat.mod_eq_of_lt small]
      simp [digitChar_mod_two]
    · -- the last digit is bit 0, and the digits before it are those of `j / 2`
      have half := ih (j / 2) (by omega)
      rw [Nat.toDigits_of_base_le (by norm_num) (not_lt.mp small), List.reverse_append, half,
        List.length_append, List.length_singleton, List.range_succ_eq_map]
      simp [digitChar_mod_two, Function.comp_def, Nat.testBit_add_one]

theorem testBit_of_length_toDigits_le {j m : ℕ} (h : (Nat.toDigits 2 j).length ≤ m) :
    j.testBit m = false := by
  have below : j < 2 ^ (Nat.toDigits 2 j).length :=
    (Nat.length_toDigits_le_iff (by norm_num) Nat.length_toDigits_pos).mp le_rfl
  exact Nat.testBit_lt_two_pow (lt_of_lt_of_le below (Nat.pow_le_pow_right two_pos h))

theorem toList_label (n j : ℕ) :
    (label n j).toList =
      (List.range (max n (Nat.toDigits 2 j).length)).map fun m => bitChar (j.testBit m) := by
  set len := (Nat.toDigits 2 j).length
  -- the zeros that pad the text stand where the number has no bits
  have padding : List.replicate (n - len) '0' =
      (List.range' len (n - len)).map fun m => bitChar (j.testBit m) := by
    symm
    rw [List.eq_replicate_iff]
    refine ⟨by simp, fun c mem => ?_⟩
    obtain ⟨m, inside, rfl⟩ := List.mem_map.mp mem
    rw [testBit_of_length_toDigits_le (List.mem_range'_1.mp inside).1]
    rfl
  have width : max n len = len + (n - len) := by omega
  simp only [label, binary, String.toList_ofList, List.reverse_append, List.reverse_replicate]
  rw [reverse_toDigits_two, padding, width, List.range_add, List.map_append,
    List.range'_eq_map_range, List.map_map]

theorem toList_label_of_lt {n j : ℕ} (hj : j < 2 ^ n) :
    (label n j).toList = (List.range (max n 1)).map fun m => bitChar (j.testBit m) := by
  rw [toList_label]
  rcases Nat.eq_zero_or_pos n with rfl | pos
  · obtain rfl : j = 0 := by simpa using hj
    rfl
  · have digits : (Nat.toDigits 2 j).length ≤ n := (Nat.length_toDigits_le_iff (by norm_num) pos).mpr hj
    rw [max_eq_left digits, max_eq_left pos]

theorem readBinary_binary (n j : ℕ) : readBinary (binary n j) = j := by
  simp only [readBinary, binary, String.toList_ofList, Nat.ofDigitChars_append,
    Nat.ofDigitChars_replicate_zero, Nat.mul_zero]
  exact Nat.ofDigitChars_toDigits (by norm_num) (by norm_num)

theorem ofDigitChars_bitChars (w j : ℕ) :
    Nat.ofDigitChars 2 ((List.range w).map fun m => bitChar (j.testBit m)) 0 = reverseBits w j := by
  induction w with
  | zero => simp [reverseBits]
  | succ w ih =>
    rw [List.range_succ, List.map_append, Nat.ofDigitChars_append, ih, reverseBits_succ]
    cases h : j.testBit w <;> simp [bitChar, Nat.ofDigitChars_cons, h]

theorem readBinary_label {n j : ℕ} (hj : j < 2 ^ n) : readBinary (label n j) = reverseBits n j := by
  rw [readBinary, toList_label_of_lt hj, ofDigitChars_bitChars]
  rcases Nat.eq_zero_or_pos n with rfl | pos
  · -- a register of no qubits has the one index 0, written with one digit
    obtain rfl : j = 0 := by simpa using hj
    rfl
  · rw [max_eq_left pos]

section
variable {n k : ℕ}

theorem toList_label_of_pos (hn : 0 < n) (hk : k < 2 ^ n) :
    (label n k).toList = (List.range n).map fun m => bitChar (k.testBit m) := by
  rw [toList_label_of_lt hk, max_eq_left hn]

theorem length_label (hn : 0 < n) (hk : k < 2 ^ n) : (label n k).length = n := by
  rw [← String.length_toList, toList_label_of_pos hn hk, List.length_map, List.length_range]

theorem getElem?_label (hn : 0 < n) (hk : k < 2 ^ n) {m : ℕ} (hm : m < n) :
    (label n k).toList[m]? = some (bitChar (k.testBit m)) := by
  rw [toList_label_of_pos hn hk, List.getElem?_map, List.getElem?_range hm]
  rfl

theorem toList_label_xor (hn : 0 < n) (hk : k < 2 ^ n) {m : ℕ} (hm : m < n) :
    (label n (k ^^^ 2 ^ m)).toList = (label n k).toList.set m (bitChar (!k.testBit m)) := by
  have flipped : k ^^^ 2 ^ m < 2 ^ n := flipNat_eq_xor k m ▸ flipNat_lt hk hm
  rw [toList_label_of_pos hn flipped, toList_label_of_pos hn hk]
  apply List.ext_getElem (by simp)
  intro i _ _
  by_cases hi : m = i
  · subst hi
    simp [Nat.testBit_xor]
  · simp [hi, Nat.testBit_xor, Nat.testBit_two_pow]

/-- On a register of at least one qubit, the label of a basis state has one character for each
qubit; character `m` is `1` exactly when qubit `m` of the state is, and `0` otherwise; and the
basis state that differs in qubit `m` alone has the label that differs in character `m` alone. -/
theorem label_lists_qubits (hn : 0 < n) (hk : k < 2 ^ n) :
    (label n k).length = n ∧
      (∀ m < n, (label n k).toList[m]? = some (if k.testBit m then '1' else '0')) ∧
      ∀ m < n, (label n (k ^^^ 2 ^ m)).toList =
        (label n k).toList.set m (if k.testBit m then '0' else '1') := by
  refine ⟨length_label hn hk, fun m hm => getElem?_label hn hk hm, fun m hm => ?_⟩
  rw [toList_label_xor hn hk hm]
  cases k.testBit m <;> rfl

end

theorem label_lists_qubits_six :
    0 < 3 ∧ 6 < 2 ^ 3 ∧
      ((label 3 6).length = 3 ∧
        (∀ m < 3, (label 3 6).toList[m]? = some (if Nat.testBit 6 m then '1' else '0')) ∧
        ∀ m < 3, (label 3 (6 ^^^ 2 ^ m)).toList =
          (label 3 6).toList.set m (if Nat.testBit 6 m then '0' else '1')) :=
  ⟨by decide, by decide, label_lists_qubits (by decide) (by decide)⟩

example : label 3 6 = "011" := by decide

end Qubits.Bits
