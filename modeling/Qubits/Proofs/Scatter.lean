import Qubits.Proofs.Exact
import Qubits.StateVector

namespace Qubits

@[simp] theorem ok_bind {ε α β : Type} (x : α) (f : α → Except ε β) :
    (Except.ok x >>= f) = f x := rfl

@[simp] theorem error_bind {ε α β : Type} (e : ε) (f : α → Except ε β) :
    (Except.error e >>= f) = Except.error e := rfl

@[simp] theorem pure_eq_ok {ε α : Type} (x : α) : (pure x : Except ε α) = .ok x := rfl

@[simp] theorem throw_eq_error {ε α : Type} (e : ε) : (throw e : Except ε α) = .error e := rfl

theorem bind_eq_ok {ε α β : Type} {x : Except ε α} {f : α → Except ε β} {y : β} :
    x >>= f = .ok y ↔ ∃ v, x = .ok v ∧ f v = .ok y := by
  cases x with
  | error e => simp
  | ok v => simp

namespace StateVector

open Finset

def amp (a : Array ℂ) (i : ℕ) : ℂ := a.getD i 0

def tabulate (N : ℕ) (f : ℕ → ℂ) : Array ℂ := Array.ofFn fun i : Fin N => f i

noncomputable def normSq (a : Array ℂ) : ℝ := ∑ k ∈ range a.size, ‖amp a k‖ ^ 2

@[simp] theorem size_tabulate (N : ℕ) (f : ℕ → ℂ) : (tabulate N f).size = N := by
  simp [tabulate]

@[simp] theorem amp_tabulate (N : ℕ) (f : ℕ → ℂ) (i : ℕ) :
    amp (tabulate N f) i = if i < N then f i else 0 := by
  by_cases hi : i < N <;> simp [amp, tabulate, Array.getD, hi]

theorem amp_of_size_le {a : Array ℂ} {i : ℕ} (hi : a.size ≤ i) : amp a i = 0 := by
  simp [amp, Array.getD, show ¬i < a.size by omega]

theorem getElem_eq_amp {a : Array ℂ} {i : ℕ} (hi : i < a.size) : a[i] = amp a i := by
  simp [amp, Array.getD, hi]

theorem tabulate_amp {a : Array ℂ} {N : ℕ} (hsize : a.size = N) : tabulate N (amp a) = a := by
  subst hsize
  apply Array.ext (by simp)
  intro i hi _
  simp [getElem_eq_amp, tabulate]

theorem tabulate_congr {N : ℕ} {f g : ℕ → ℂ} (h : ∀ i < N, f i = g i) :
    tabulate N f = tabulate N g := by
  simp only [tabulate]
  congr 1
  funext i
  exact h i i.isLt

theorem ext_amp {a b : Array ℂ} {N : ℕ} (ha : a.size = N) (hb : b.size = N)
    (h : ∀ i < N, amp a i = amp b i) : a = b := by
  rw [← tabulate_amp ha, ← tabulate_amp hb]
  exact tabulate_congr h

theorem amp_set {b : Array ℂ} {j : ℕ} (hj : j < b.size) (x : ℂ) (i : ℕ) :
    amp (b.set j x hj) i = if i = j then x else amp b i := by
  by_cases hi : i < b.size
  · simp [amp, Array.getD, hi, Array.getElem_set, eq_comm]
  · simp [amp, Array.getD, hi, show i ≠ j by omega]

theorem normSq_tabulate (N : ℕ) (f : ℕ → ℂ) :
    normSq (tabulate N f) = ∑ k ∈ range N, ‖f k‖ ^ 2 := by
  unfold normSq
  rw [size_tabulate]
  exact sum_congr rfl fun k hk => by simp [mem_range.mp hk]

theorem zeros_eq (N : ℕ) : (zeros N : Array ℂ) = tabulate N fun _ => 0 := by
  apply ext_amp (N := N) (by simp [zeros]) (by simp)
  intro i hi
  rw [amp_tabulate, if_pos hi]
  simp [amp, zeros, Array.getD, hi]

theorem read_eq {a : Array ℂ} {j : ℕ} (hj : j < a.size) : read a j = .ok (amp a j) := by
  simp [read, hj, getElem_eq_amp]

theorem accumulate_eq {b : Array ℂ} {j : ℕ} (hj : j < b.size) (v : ℂ) :
    accumulate b j v = .ok (tabulate b.size fun i => amp b i + if i = j then v else 0) := by
  simp only [accumulate, hj, dite_true, Except.ok.injEq]
  apply ext_amp (N := b.size) (by simp) (by simp)
  intro i hi
  rw [amp_tabulate, if_pos hi, amp_set, getElem_eq_amp hj]
  by_cases hij : i = j <;> simp [hij]

theorem write_eq {b : Array ℂ} {j : ℕ} (hj : j < b.size) (v : ℂ) :
    write b j v = .ok (tabulate b.size fun i => if i = j then v else amp b i) := by
  simp only [write, hj, dite_true, Except.ok.injEq]
  apply ext_amp (N := b.size) (by simp) (by simp)
  intro i hi
  rw [amp_tabulate, if_pos hi, amp_set]

theorem accumulate_pair {c : Array ℂ} {t₁ t₂ : ℕ} (h₁ : t₁ < c.size) (h₂ : t₂ < c.size)
    (v₁ v₂ : ℂ) :
    (accumulate c t₁ v₁ >>= fun c => accumulate c t₂ v₂) =
      .ok (tabulate c.size fun i =>
        amp c i + ((if i = t₁ then v₁ else 0) + if i = t₂ then v₂ else 0)) := by
  rw [accumulate_eq h₁, ok_bind, accumulate_eq (by simpa using h₂)]
  congr 1
  simp only [size_tabulate]
  apply tabulate_congr
  intro i hi
  simp [hi, add_assoc]

theorem accumulate_ok_lt {b c : Array ℂ} {j : ℕ} {v : ℂ} (h : accumulate b j v = .ok c) :
    j < b.size := by
  by_contra hj
  simp [accumulate, hj] at h

theorem foldlM_add {α : Type} {N : ℕ} (v : α → ℕ → ℂ)
    (step : Array ℂ → α → Except Fault (Array ℂ)) :
    ∀ (items : List α) (b : Array ℂ), b.size = N →
      (∀ c e, c.size = N → e ∈ items → step c e = .ok (tabulate N fun i => amp c i + v e i)) →
      items.foldlM step b = .ok (tabulate N fun i => amp b i + (items.map (v · i)).sum)
  | [], b, hb, _ => by simp [tabulate_amp hb]
  | e :: items, b, hb, hstep => by
    rw [List.foldlM_cons, hstep b e hb (by simp), ok_bind, foldlM_add v step items _ (size_tabulate N _)
      (fun c e' hc he' => hstep c e' hc (List.mem_cons_of_mem e he'))]
    congr 1
    apply tabulate_congr
    intro i hi
    simp [hi, add_assoc]

theorem sum_map_range {M : Type} [AddCommMonoid M] (count : ℕ) (f : ℕ → M) :
    ((List.range count).map f).sum = ∑ j ∈ range count, f j := by
  induction count with
  | zero => simp
  | succ count ih => simp [List.range_succ, sum_range_succ, ih]

theorem sweep_eq {N count : ℕ} (m : ℕ → ℕ → ℂ) {a b : Array ℂ}
    {body : Array ℂ → ℕ → ℂ → Except Fault (Array ℂ)}
    (hcount : count ≤ a.size) (hb : b.size = N)
    (hbody : ∀ c j, c.size = N → j < count → amp a j ≠ 0 →
      body c j (amp a j) = .ok (tabulate N fun i => amp c i + m i j * amp a j)) :
    sweep a count b body =
      .ok (tabulate N fun i => amp b i + ∑ j ∈ range count, m i j * amp a j) := by
  unfold sweep
  rw [foldlM_add (fun j i => m i j * amp a j) _ _ b hb]
  · simp only [sum_map_range]
  intro c j hc hj
  have hj : j < count := List.mem_range.mp hj
  simp only [read_eq (lt_of_lt_of_le hj hcount), ok_bind, Exact.isZero_eq]
  by_cases hzero : amp a j = 0
  · simp [hzero, tabulate_amp hc]
  · simp only [hzero, decide_false, Bool.false_eq_true, if_false]
    exact hbody c j hc hj hzero

theorem sweep_diagonal {N : ℕ} (d : ℕ → ℂ) {a : Array ℂ}
    {body : Array ℂ → ℕ → ℂ → Except Fault (Array ℂ)} (hsize : a.size = N)
    (hbody : ∀ c j, c.size = N → j < N → amp a j ≠ 0 →
      body c j (amp a j) = .ok (tabulate N fun i => amp c i + if i = j then d j * amp a j else 0)) :
    sweep a N (zeros N) body = .ok (tabulate N fun i => d i * amp a i) := by
  rw [sweep_eq (N := N) (fun i j => if i = j then d j else 0) hsize.ge (by simp [zeros])]
  · congr 1
    apply tabulate_congr
    intro i hi
    simp [zeros_eq, hi]
  intro c j hc hj hx
  rw [hbody c j hc hj hx]
  congr 1
  apply tabulate_congr
  intro i _
  split <;> simp

theorem sweep_involution {N : ℕ} (π : ℕ → ℕ) (inside : ∀ i < N, π i < N)
    (involutive : ∀ i < N, π (π i) = i) {a : Array ℂ}
    {body : Array ℂ → ℕ → ℂ → Except Fault (Array ℂ)} (hsize : a.size = N)
    (hbody : ∀ c j, c.size = N → j < N → amp a j ≠ 0 →
      body c j (amp a j) = .ok (tabulate N fun i => amp c i + if i = π j then amp a j else 0)) :
    sweep a N (zeros N) body = .ok (tabulate N fun i => amp a (π i)) := by
  rw [sweep_eq (N := N) (fun i j => if i = π j then 1 else 0) hsize.ge (by simp [zeros])]
  · congr 1
    apply tabulate_congr
    intro i hi
    have moved : ∀ j ∈ range N, (if i = π j then (1 : ℂ) else 0) * amp a j =
        if j = π i then amp a j else 0 := by
      intro j hj
      have back : i = π j ↔ j = π i := ⟨fun h => by rw [h, involutive j (mem_range.mp hj)],
        fun h => by rw [h, involutive i hi]⟩
      simp only [back]
      split <;> simp
    rw [sum_congr rfl moved, sum_ite_eq']
    simp [zeros_eq, hi, inside i hi]
  intro c j hc hj hx
  rw [hbody c j hc hj hx]
  congr 1
  apply tabulate_congr
  intro i _
  split <;> simp

theorem toList_tabulate (N : ℕ) (f : ℕ → ℂ) : (tabulate N f).toList = (List.range N).map f := by
  apply List.ext_getElem (by simp)
  intro i _ _
  simp [tabulate]

theorem range_map_perm {N : ℕ} {π : ℕ → ℕ} (inside : ∀ i < N, π i < N)
    (involutive : ∀ i < N, π (π i) = i) : ((List.range N).map π).Perm (List.range N) := by
  have injective : ∀ i ∈ List.range N, ∀ j ∈ List.range N, π i = π j → i = j := by
    intro i hi j hj same
    rw [← involutive i (List.mem_range.mp hi), same, involutive j (List.mem_range.mp hj)]
  rw [List.perm_ext_iff_of_nodup (List.nodup_range.map_on injective) List.nodup_range]
  intro i
  simp only [List.mem_map, List.mem_range]
  constructor
  · rintro ⟨j, hj, rfl⟩
    exact inside j hj
  · intro hi
    exact ⟨π i, inside i hi, involutive i hi⟩

theorem tabulate_involution_perm {N : ℕ} {π : ℕ → ℕ} (inside : ∀ i < N, π i < N)
    (involutive : ∀ i < N, π (π i) = i) {a : Array ℂ} (hsize : a.size = N) :
    (tabulate N fun i => amp a (π i)).toList.Perm a.toList := by
  conv_rhs => rw [← tabulate_amp hsize]
  rw [toList_tabulate, toList_tabulate]
  have moved := (range_map_perm inside involutive).map (amp a)
  rwa [List.map_map] at moved

end StateVector

end Qubits
