import Qubits.Proofs.SingleQubit
import Qubits.Proofs.BitReversal
import Qubits.Gate

/-!
# Rearranging amplitudes

The sign flip negates one amplitude where it stands (`negateAt_eq`), and the reversal of the
qubit order moves the amplitude of `j` to the index whose bits are those of `j` read backwards
(`reverseQubits_eq`). Bit reversal is an involution of the register (`reverseBits_reverseBits`),
so both keep the total probability.
-/

namespace Qubits

open Finset StateVector

namespace Gate

open Bits

section Texts

variable {R K : Type} [Amplitude R K]

theorem foldlM_congr_of_mem {ε α β : Type} {f g : α → β → Except ε α} :
    ∀ (l : List β) (init : α), (∀ b, ∀ x ∈ l, f b x = g b x) → l.foldlM f init = l.foldlM g init
  | [], _, _ => rfl
  | x :: l, init, same => by
    rw [List.foldlM_cons, List.foldlM_cons, same init x List.mem_cons_self]
    congr 1
    funext b
    exact foldlM_congr_of_mem l b fun b y mem => same b y (List.mem_cons_of_mem x mem)

theorem reverseQubits_eq_foldlM (n : ℕ) (a : Array K) :
    reverseQubits n a = (List.range (2 ^ n)).foldlM (fun b j => do
      let x ← read a j
      write b (reverseBits n j) x) (zeros (2 ^ n)) := by
  unfold reverseQubits
  simp only [Nat.pow_eq]
  apply foldlM_congr_of_mem
  intro b j inside
  rw [readBinary_binary, readBinary_label (List.mem_range.mp inside)]

theorem reverseQubits_prefix {n : ℕ} {a : Array K} (ha : a.size = 2 ^ n) {m : ℕ}
    (hm : m ≤ 2 ^ n) :
    ∃ b, (List.range m).foldlM (fun b j => do
        let x ← read a j
        write b (reverseBits n j) x) (zeros (2 ^ n)) = .ok b ∧
      b.size = 2 ^ n ∧ ∀ j < m, b[reverseBits n j]? = a[j]? := by
  induction m with
  | zero => exact ⟨zeros (2 ^ n), rfl, size_zeros _, fun j hj => absurd hj (Nat.not_lt_zero j)⟩
  | succ m ih =>
    obtain ⟨b, fold, size, moved⟩ := ih (by omega)
    have inside : m < a.size := by omega
    have target : reverseBits n m < b.size := size ▸ reverseBits_lt n m
    refine ⟨b.set (reverseBits n m) a[m] target, ?_, by rw [Array.size_set, size], fun j hj => ?_⟩
    · rw [List.range_succ, List.foldlM_append, fold, ok_bind, List.foldlM_cons, read_of_lt inside,
        ok_bind, write_of_lt target]
      rfl
    · rw [Array.getElem?_set]
      by_cases same : j = m
      · subst same
        rw [if_pos rfl, Array.getElem?_eq_getElem inside]
      · -- the reversal is one to one on the register, so the earlier entries stay
        have apart : reverseBits n m ≠ reverseBits n j := fun eq => same (by
          rw [← reverseBits_reverseBits (show j < 2 ^ n by omega), ← eq,
            reverseBits_reverseBits (show m < 2 ^ n by omega)])
        rw [if_neg apart]
        exact moved j (by omega)

theorem reverseQubits_moves {n : ℕ} {a : Array K} (ha : a.size = 2 ^ n) :
    ∃ b, reverseQubits n a = .ok b ∧ b.size = 2 ^ n ∧ ∀ j < 2 ^ n, b[reverseBits n j]? = a[j]? := by
  rw [reverseQubits_eq_foldlM]
  exact reverseQubits_prefix ha le_rfl

theorem reverseQubits_reverseQubits {n : ℕ} {a b : Array K} (ha : a.size = 2 ^ n)
    (hb : reverseQubits n a = .ok b) : reverseQubits n b = .ok a := by
  obtain ⟨b', hb', size, moved⟩ := reverseQubits_moves ha
  obtain rfl : b = b' := Except.ok.inj (hb.symm.trans hb')
  obtain ⟨d, hd, dsize, dmoved⟩ := reverseQubits_moves size
  rw [hd]
  congr 1
  apply Array.ext_getElem?
  intro i
  by_cases inside : i < 2 ^ n
  · calc d[i]? = d[reverseBits n (reverseBits n i)]? := by rw [reverseBits_reverseBits inside]
      _ = b[reverseBits n i]? := dmoved _ (reverseBits_lt n i)
      _ = a[i]? := moved i inside
  · rw [Array.getElem?_eq_none (by omega), Array.getElem?_eq_none (by omega)]

/-- Reversing the qubit order is the bit-reversal permutation of the register. The binary texts
it goes through write each index `j` and `∑ m < n, bit m of j · 2 ^ (n - 1 - m)`; the amplitude at
`j` moves there unchanged, whatever the amplitudes are, and a second reversal gives the register
back. -/
theorem reverseQubits_permutes {n : ℕ} {a : Array K} (ha : a.size = 2 ^ n) :
    (∀ j < 2 ^ n, readBinary (binary n j) = j ∧
      readBinary (label n j) = ∑ m ∈ range n, (j.testBit m).toNat * 2 ^ (n - 1 - m)) ∧
    ∃ b, reverseQubits n a = .ok b ∧ b.size = 2 ^ n ∧
      (∀ j < 2 ^ n, b[∑ m ∈ range n, (j.testBit m).toNat * 2 ^ (n - 1 - m)]? = a[j]?) ∧
      reverseQubits n b = .ok a := by
  obtain ⟨b, hb, size, moved⟩ := reverseQubits_moves ha
  refine ⟨fun j hj => ⟨readBinary_binary n j, ?_⟩, b, hb, size, fun j hj => ?_,
    reverseQubits_reverseQubits ha hb⟩
  · rw [readBinary_label hj, reverseBits_eq_sum_toNat]
  · rw [← reverseBits_eq_sum_toNat]
    exact moved j hj

theorem reverseQubits_permutes_two_qubits :
    (#[⟨0.5, 0⟩, ⟨0, 0.5⟩, ⟨-0.5, 0⟩, ⟨0, -0.5⟩] : Array DComplex).size = 2 ^ 2 ∧
    (∀ j < 2 ^ 2, readBinary (binary 2 j) = j ∧
      readBinary (label 2 j) = ∑ m ∈ range 2, (j.testBit m).toNat * 2 ^ (2 - 1 - m)) ∧
    ∃ b, reverseQubits 2 (#[⟨0.5, 0⟩, ⟨0, 0.5⟩, ⟨-0.5, 0⟩, ⟨0, -0.5⟩] : Array DComplex) = .ok b ∧
      b.size = 2 ^ 2 ∧
      (∀ j < 2 ^ 2, b[∑ m ∈ range 2, (j.testBit m).toNat * 2 ^ (2 - 1 - m)]? =
        (#[⟨0.5, 0⟩, ⟨0, 0.5⟩, ⟨-0.5, 0⟩, ⟨0, -0.5⟩] : Array DComplex)[j]?) ∧
      reverseQubits 2 b = .ok (#[⟨0.5, 0⟩, ⟨0, 0.5⟩, ⟨-0.5, 0⟩, ⟨0, -0.5⟩] : Array DComplex) :=
  ⟨rfl, reverseQubits_permutes rfl⟩

end Texts

theorem resolve_lt {a : Array ℂ} {index : ℤ} {i : ℕ} (h : resolve a index = .ok i) :
    i < a.size := by
  unfold resolve at h
  split at h
  · cases h
  split at h
  · cases h
  split at h
  · cases h
    omega
  split at h
  · cases h
    omega
  · cases h

theorem negateAt_of_resolve {index : ℤ} {a : Array ℂ} {i : ℕ} (h : resolve a index = .ok i) :
    negateAt index a = .ok (tabulate a.size fun k => if k = i then -amp a k else amp a k) := by
  have inside := resolve_lt h
  unfold negateAt
  rw [h, ok_bind, read_eq inside, ok_bind, write_eq inside]
  congr 1
  apply tabulate_congr
  intro k _
  split <;> simp [*]

theorem negateAt_eq {index : ℤ} {a b : Array ℂ} (h : negateAt index a = .ok b) :
    ∃ i < a.size, b = tabulate a.size fun k => if k = i then -amp a k else amp a k := by
  cases resolved : resolve a index with
  | error e => simp [negateAt, resolved] at h
  | ok i =>
    rw [negateAt_of_resolve resolved] at h
    exact ⟨i, resolve_lt resolved, (Except.ok.inj h).symm⟩

theorem normSq_negateAt {index : ℤ} {a b : Array ℂ} (h : negateAt index a = .ok b) :
    b.size = a.size ∧ normSq b = normSq a := by
  obtain ⟨i, _, rfl⟩ := negateAt_eq h
  refine ⟨size_tabulate _ _, ?_⟩
  rw [normSq_tabulate, normSq]
  apply sum_congr rfl
  intro k _
  split <;> simp

theorem reverseQubits_eq {n : ℕ} {a : Array ℂ} (ha : a.size = 2 ^ n) :
    reverseQubits n a = .ok (tabulate (2 ^ n) fun i => amp a (reverseBits n i)) := by
  obtain ⟨b, hb, size, moved⟩ := reverseQubits_moves ha
  rw [hb]
  congr 1
  apply ext_amp size (size_tabulate _ _)
  intro i inside
  -- the entry at `i` came from the reversal of `i`
  have entry := moved (reverseBits n i) (reverseBits_lt n i)
  rw [reverseBits_reverseBits inside] at entry
  rw [amp_tabulate, if_pos inside, amp, amp, Array.getD_eq_getD_getElem?,
    Array.getD_eq_getD_getElem?, entry]

theorem sum_reverseBits {M : Type} [AddCommMonoid M] (n : ℕ) (g : ℕ → M) :
    ∑ i ∈ range (2 ^ n), g (reverseBits n i) = ∑ i ∈ range (2 ^ n), g i :=
  sum_nbij' (reverseBits n) (reverseBits n)
    (fun i _ => by simpa using reverseBits_lt n i) (fun i _ => by simpa using reverseBits_lt n i)
    (fun i hi => reverseBits_reverseBits (mem_range.mp hi))
    (fun i hi => reverseBits_reverseBits (mem_range.mp hi)) (fun _ _ => rfl)

theorem sum_norm_reverseBits (n : ℕ) (f : ℕ → ℂ) :
    ∑ i ∈ range (2 ^ n), ‖f (reverseBits n i)‖ ^ 2 = ∑ i ∈ range (2 ^ n), ‖f i‖ ^ 2 :=
  sum_reverseBits n fun i => ‖f i‖ ^ 2

end Gate

end Qubits
