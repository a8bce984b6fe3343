import Qubits.Proofs.Scatter
import Qubits.Circuit.Run

/-!
# Commands as the circuit runner reads them

The runner trims a command, splits it into words, and compares the first word with `init`, `h`
and `x` in either letter case; the second word, read as an integer, is the register size or the
qubit. Every command therefore asks for one of three things (`Command`): a new register, a gate
on a qubit, or nothing; and a step of the runner does what `readCommand` finds (`step_eq_act`).

Two consequences for lists of commands (`run_skips_malformed_commands`). A command that is blank,
led by another word, or a gate word without an integer after it (`Skipped`) can be taken out of
any list of commands without changing the run. And the runner tells characters apart no better
than `readAs` does, which forgets letter case, so commands that differ only in letter case and in
the blanks around them run alike.
-/

namespace Qubits.Circuit

open Text Gate

variable {R K : Type} [RealScalar R] [Amplitude R K]

/-! ## The three kinds of command -/

inductive Command where
  | init (size : ℤ)
  | gate (g : OneQubit) (q : ℤ)
  | skip
  deriving DecidableEq

/-- The command that the words of a command ask for: `init` with the integer after it, or one
qubit when there is none; `h` or `x` with the integer after it; anything else is skipped. -/
def Command.ofWords (words : List String) : Command :=
  match words with
  | [] => .skip
  | w :: _ =>
    if isWord w "init" then .init ((argument words).getD 1)
    else if isWord w "h" then
      match argument words with
      | some q => .gate .h q
      | none => .skip
    else if isWord w "x" then
      match argument words with
      | some q => .gate .x q
      | none => .skip
    else .skip

/-- The command a text asks for. Irreducible, so that no proof evaluates the words of a text it
does not know. -/
@[irreducible] def readCommand (command : String) : Command :=
  Command.ofWords (words (trimBlank command))

def Command.act : Command → ℕ × Array K → Except Fault (ℕ × Array K)
  | .init size, _ => ground size
  | .gate g q, reg => do pure (reg.1, ← applyGate g reg.1 q reg.2)
  | .skip, reg => pure reg

theorem step_eq_act (reg : ℕ × Array K) (command : String) :
    step reg command = (readCommand command).act reg := by
  unfold step readCommand
  generalize words (trimBlank command) = ws
  cases ws with
  | nil => rfl
  | cons w rest =>
    -- one case for each command word, tried in the runner's order
    unfold Command.ofWords
    by_cases init : isWord w "init"
    · simp only [init, if_true]
      rfl
    by_cases hadamard : isWord w "h"
    · simp only [init, hadamard, if_true, Bool.false_eq_true, if_false]
      cases argument (w :: rest) <;> rfl
    by_cases pauli : isWord w "x"
    · simp only [init, hadamard, pauli, if_true, Bool.false_eq_true, if_false]
      cases argument (w :: rest) <;> rfl
    simp only [init, hadamard, pauli, Bool.false_eq_true, if_false]
    rfl

/-! ## Commands that are skipped -/

/-- The words of a command the runner skips: none at all, a first word other than `init`, `h` and
`x` in any letter case, or `h` or `x` with no integer after it, because there is no second word
or it does not read as an integer. -/
def SkippedWords : List String → Prop
  | [] => True
  | w :: rest =>
    (isWord w "init" = false ∧ isWord w "h" = false ∧ isWord w "x" = false) ∨
      ((isWord w "h" = true ∨ isWord w "x" = true) ∧
        ∀ arg ∈ rest.head?, (readInt arg).toOption = none)

instance : DecidablePred SkippedWords
  | [] => inferInstanceAs (Decidable True)
  | _ :: _ => inferInstanceAs (Decidable (_ ∨ _))

@[irreducible] def Skipped (command : String) : Prop := SkippedWords (words (trimBlank command))

instance (command : String) : Decidable (Skipped command) :=
  decidable_of_iff (SkippedWords (words (trimBlank command))) (by unfold Skipped; rfl)

theorem isWord_unique {w t t' : String} (h : isWord w t = true) (h' : isWord w t' = true) :
    t = t' := by
  unfold isWord at h h'
  rw [beq_iff_eq] at h h'
  exact String.toList_injective (h.symm.trans h')

theorem argument_cons_eq_none {w : String} {rest : List String}
    (missing : ∀ arg ∈ rest.head?, (readInt arg).toOption = none) : argument (w :: rest) = none := by
  cases rest with
  | nil => rfl
  | cons arg _ => exact missing arg rfl

theorem readCommand_of_skipped {command : String} (skipped : Skipped command) :
    readCommand command = .skip := by
  unfold Skipped at skipped
  unfold readCommand
  generalize words (trimBlank command) = ws at skipped
  cases ws with
  | nil => rfl
  | cons w rest =>
    rcases skipped with ⟨notInit, notH, notX⟩ | ⟨gate, missing⟩
    · simp only [Command.ofWords, notInit, notH, notX, Bool.false_eq_true, if_false]
    · -- a gate word is not `init`, and without its integer the gate is skipped
      have notInit : isWord w "init" = false := by
        rcases gate with h | h <;>
          exact Bool.eq_false_iff.mpr fun init => absurd (isWord_unique init h) (by simp)
      rcases gate with h | h
      · simp only [Command.ofWords, notInit, h, argument_cons_eq_none missing, Bool.false_eq_true,
          if_false, if_true]
      · have notH : isWord w "h" = false :=
          Bool.eq_false_iff.mpr fun hadamard => absurd (isWord_unique hadamard h) (by simp)
        simp only [Command.ofWords, notInit, notH, h, argument_cons_eq_none missing,
          Bool.false_eq_true, if_false, if_true]

/-! ## Letter case -/

theorem ascii_all {p : Char → Prop} (h : ∀ n : Fin 128, p (Char.ofNat n)) {c : Char}
    (hc : c.toNat < 128) : p c := by
  simpa using h ⟨c.toNat, hc⟩

theorem foldCase_of_le {c : Char} (h : 128 ≤ c.toNat) : foldCase c = c := by
  unfold foldCase Char.toLower
  rw [dif_neg]
  rintro ⟨-, upper⟩
  rw [UInt32.le_iff_toNat_le, Char.toNat_val] at upper
  have letterZ : ('Z'.val).toNat = 90 := rfl
  omega

theorem comp_foldCase_of_ascii {α : Type} {g : Char → α}
    (ascii : ∀ n : Fin 128, g (foldCase (Char.ofNat n)) = g (Char.ofNat n)) (c : Char) :
    g (foldCase c) = g c := by
  by_cases h : c.toNat < 128
  · exact ascii_all (p := fun c => g (foldCase c) = g c) ascii h
  · rw [foldCase_of_le (by omega)]

@[simp] theorem foldCase_foldCase (c : Char) : foldCase (foldCase c) = foldCase c :=
  comp_foldCase_of_ascii (g := foldCase) (by decide) c

@[simp] theorem isAlpha_foldCase (c : Char) : (foldCase c).isAlpha = c.isAlpha :=
  comp_foldCase_of_ascii (g := Char.isAlpha) (by decide) c

@[simp] theorem isAsciiBlank_foldCase (c : Char) : isAsciiBlank (foldCase c) = isAsciiBlank c :=
  comp_foldCase_of_ascii (g := isAsciiBlank) (by decide) c

@[simp] theorem asciiDigit?_foldCase (c : Char) : asciiDigit? (foldCase c) = asciiDigit? c :=
  comp_foldCase_of_ascii (g := asciiDigit?) (by decide) c

theorem foldCase_of_not_alpha {c : Char} (hc : c.isAlpha = false) : foldCase c = c := by
  by_cases h : c.toNat < 128
  · exact ascii_all (p := fun c => c.isAlpha = false → foldCase c = c) (by decide) h hc
  · rw [foldCase_of_le (by omega)]

theorem foldCase_eq_iff {c x : Char} (hx : x.isAlpha = false) : foldCase c = x ↔ c = x := by
  constructor
  · intro folded
    cases hc : c.isAlpha
    · rwa [foldCase_of_not_alpha hc] at folded
    · have letter := isAlpha_foldCase c
      rw [folded, hx, hc] at letter
      cases letter
  · rintro rfl
    exact foldCase_of_not_alpha hx

theorem beq_foldCase {c x : Char} (hx : x.isAlpha = false) : (foldCase c == x) = (c == x) := by
  rw [Bool.eq_iff_iff, beq_iff_eq, beq_iff_eq, foldCase_eq_iff hx]

/-! ## Integers do not depend on letter case -/

theorem readDigits_map_foldCase (cs : List Char) (value count : ℕ) (afterUnderscore : Bool) :
    readDigits (cs.map foldCase) value count afterUnderscore =
      (fun r => (r.1, r.2.1, r.2.2.map foldCase)) <$> readDigits cs value count afterUnderscore := by
  induction cs generalizing value count afterUnderscore with
  | nil => cases afterUnderscore <;> rfl
  | cons c rest ih =>
    simp only [List.map_cons, readDigits, asciiDigit?_foldCase, beq_foldCase (x := '_') rfl]
    cases asciiDigit? c with
    | some d => exact ih ..
    | none => split_ifs <;> simp [ih, Functor.map, Except.map]

theorem head?_map_foldCase_beq (cs : List Char) :
    ((cs.map foldCase).head? == some '_') = (cs.head? == some '_') := by
  cases cs with
  | nil => rfl
  | cons c cs =>
    simp only [List.map_cons, List.head?_cons, Option.some_beq_some, beq_foldCase (x := '_') rfl]

theorem readInt_congr {s t : String}
    (h : t.toList.map asciiForm = (s.toList.map asciiForm).map foldCase) : readInt t = readInt s := by
  unfold readInt
  rw [h]
  generalize s.toList.map asciiForm = A
  have dropped :
      (A.map foldCase).dropWhile isAsciiBlank = (A.dropWhile isAsciiBlank).map foldCase := by
    rw [List.dropWhile_map]
    congr 2
    funext c
    simp
  rw [dropped]
  generalize A.dropWhile isAsciiBlank = D
  -- the sign is read alike from both texts, and what follows it differs only in case
  rcases D with _ | ⟨c, rest⟩
  · rfl
  by_cases minus : c = '-'
  · subst minus
    simp only [List.map_cons, show foldCase '-' = '-' from rfl, head?_map_foldCase_beq,
      readDigits_map_foldCase]
    simp
  by_cases plus : c = '+'
  · subst plus
    simp only [List.map_cons, show foldCase '+' = '+' from rfl, head?_map_foldCase_beq,
      readDigits_map_foldCase]
    simp
  have minus' : foldCase c ≠ '-' := by rwa [Ne, foldCase_eq_iff rfl]
  have plus' : foldCase c ≠ '+' := by rwa [Ne, foldCase_eq_iff rfl]
  dsimp only [List.map_cons]
  split
  · rename_i folded
    exact absurd (List.cons.inj folded).1 minus'
  · rename_i folded
    exact absurd (List.cons.inj folded).1 plus'
  symm
  split
  · rename_i same
    exact absurd (List.cons.inj same).1 minus
  · rename_i same
    exact absurd (List.cons.inj same).1 plus
  simp only [head?_map_foldCase_beq, readDigits_map_foldCase]
  simp

/-! ## What the runner tells apart -/

/-- A character as the runner tells characters apart. An ASCII letter reads in lower case; a
character outside ASCII that is neither a blank nor a decimal digit, as every letter of another
script is in either case, reads as `?`, which is no letter of a command word and no part of a
number. -/
def readAs (c : Char) : Char :=
  if c.toNat < 128 then foldCase c
  else if isBlank c || (decimalValue? c).isSome then c
  else '?'

theorem decimalValue?_lt {c : Char} {d : ℕ} (h : decimalValue? c = some d) : d < 10 := by
  unfold decimalValue? at h
  obtain ⟨z, found, rfl⟩ := Option.map_eq_some_iff.mp h
  have within := Array.find?_some found
  simp only [decide_eq_true_eq] at within
  omega

theorem foldCase_asciiForm_of_le {c : Char} (h : 127 ≤ c.toNat) :
    foldCase (asciiForm c) = asciiForm c := by
  unfold asciiForm
  rw [if_neg (by omega)]
  split_ifs
  · rfl
  · split
    · rename_i d value
      exact ascii_all (p := fun c => ∀ d < 10, foldCase (Char.ofNat (48 + d)) = Char.ofNat (48 + d))
        (by decide) (show 'a'.toNat < 128 by decide) d (decimalValue?_lt value)
    · rfl

@[simp] theorem isBlank_readAs (c : Char) : isBlank (readAs c) = isBlank c := by
  by_cases h : c.toNat < 128
  · exact ascii_all (p := fun c => isBlank (readAs c) = isBlank c) (by decide) h
  · unfold readAs
    rw [if_neg h]
    split
    · rfl
    · rename_i kept
      simp only [Bool.or_eq_true, not_or] at kept
      rw [Bool.eq_false_iff.mpr kept.1]
      rfl

theorem asciiForm_readAs (c : Char) : asciiForm (readAs c) = foldCase (asciiForm c) := by
  by_cases h : c.toNat < 128
  · exact ascii_all (p := fun c => asciiForm (readAs c) = foldCase (asciiForm c)) (by decide) h
  · unfold readAs
    rw [if_neg h]
    split
    · exact (foldCase_asciiForm_of_le (by omega)).symm
    · rename_i kept
      simp only [Bool.or_eq_true, not_or] at kept
      have other : asciiForm c = '?' := by
        unfold asciiForm
        rw [if_neg (by omega), if_neg kept.1, Option.not_isSome_iff_eq_none.mp kept.2]
      rw [other]
      rfl

theorem foldCase_readAs_eq_iff {c x : Char} (ascii : x.toNat < 128) (hx : x ≠ '?') :
    foldCase (readAs c) = x ↔ foldCase c = x := by
  by_cases h : c.toNat < 128
  · rw [readAs, if_pos h, foldCase_foldCase]
  · have outside : 128 ≤ c.toNat := by omega
    have apart : c ≠ x := by
      rintro rfl
      omega
    rw [foldCase_of_le outside, readAs, if_neg h]
    split
    · rw [foldCase_of_le outside]
    · simp only [show foldCase '?' = '?' from rfl]
      exact ⟨fun e => absurd e.symm hx, fun e => absurd e apart⟩

theorem isWord_readAs (w : String) {t : String} (ht : ∀ x ∈ t.toList, x.toNat < 128 ∧ x ≠ '?') :
    isWord (String.ofList (w.toList.map readAs)) t = isWord w t := by
  unfold isWord
  rw [String.toList_ofList, List.map_map, Bool.eq_iff_iff, beq_iff_eq, beq_iff_eq]
  generalize w.toList = l
  generalize t.toList = u at ht
  induction l generalizing u with
  | nil => rfl
  | cons c l ih =>
    cases u with
    | nil => simp
    | cons x u =>
      have head := foldCase_readAs_eq_iff (c := c) (ht x (by simp)).1 (ht x (by simp)).2
      simp only [List.map_cons, List.cons.injEq, Function.comp_apply, head,
        ih u fun y hy => ht y (by simp [hy])]

theorem readInt_readAs (s : String) : readInt (String.ofList (s.toList.map readAs)) = readInt s := by
  apply readInt_congr
  rw [String.toList_ofList, List.map_map, List.map_map]
  exact List.map_congr_left fun c _ => asciiForm_readAs c

theorem wordsStep_map {g : Char → Char} (hg : ∀ c, isBlank (g c) = isBlank c)
    (acc : List (List Char) × List Char) (c : Char) :
    wordsStep (Prod.map (List.map (List.map g)) (List.map g) acc) (g c) =
      Prod.map (List.map (List.map g)) (List.map g) (wordsStep acc c) := by
  obtain ⟨done, current⟩ := acc
  unfold wordsStep
  by_cases blank : isBlank c <;> by_cases empty : current.isEmpty <;> simp [hg, blank, empty]

theorem words_map {g : Char → Char} (hg : ∀ c, isBlank (g c) = isBlank c) (l : List Char) :
    words (String.ofList (l.map g)) =
      (words (String.ofList l)).map fun w => String.ofList (w.toList.map g) := by
  have fold : ∀ (l : List Char) acc, (l.map g).foldl wordsStep
      (Prod.map (List.map (List.map g)) (List.map g) acc) =
      Prod.map (List.map (List.map g)) (List.map g) (l.foldl wordsStep acc) := by
    intro l
    induction l with
    | nil => exact fun _ => rfl
    | cons c l ih =>
      exact fun acc => by rw [List.map_cons, List.foldl_cons, List.foldl_cons, wordsStep_map hg, ih]
  have start := fold l ([], [])
  simp only [Prod.map, List.map_nil] at start
  unfold words
  rw [String.toList_ofList, String.toList_ofList, start]
  obtain ⟨done, current⟩ := l.foldl wordsStep ([], [])
  by_cases empty : current.isEmpty <;> simp [empty, List.map_reverse]

theorem argument_readAs (ws : List String) :
    argument (ws.map fun w => String.ofList (w.toList.map readAs)) = argument ws := by
  match ws with
  | [] => rfl
  | [_] => rfl
  | _ :: arg :: _ => simp only [List.map_cons, argument, readInt_readAs]

theorem ofWords_readAs (ws : List String) :
    Command.ofWords (ws.map fun w => String.ofList (w.toList.map readAs)) = Command.ofWords ws := by
  cases ws with
  | nil => rfl
  | cons w rest =>
    have init := isWord_readAs w (t := "init") (by simp)
    have hadamard := isWord_readAs w (t := "h") (by simp)
    have pauli := isWord_readAs w (t := "x") (by simp)
    unfold Command.ofWords
    rw [argument_readAs]
    simp only [List.map_cons, init, hadamard, pauli]

theorem readCommand_congr {c c' : String}
    (alike : (trimBlank c).toList.map readAs = (trimBlank c').toList.map readAs) :
    readCommand c = readCommand c' := by
  have read : ∀ c : String, readCommand c =
      Command.ofWords (words (String.ofList ((trimBlank c).toList.map readAs))) := by
    intro c
    rw [words_map isBlank_readAs, ofWords_readAs, String.ofList_toList]
    unfold readCommand
    rfl
  rw [read c, read c', alike]

/-! ## Runs -/

theorem run_skip {c : String} (skip : readCommand c = .skip) (L₁ L₂ : List String) :
    run (R := R) (K := K) (L₁ ++ c :: L₂) = run (L₁ ++ L₂) := by
  unfold run
  simp only [List.foldlM_append, List.foldlM_cons, step_eq_act _ c, skip, Command.act, pure_bind]

theorem run_congr {c c' : String} (same : readCommand c = readCommand c') (L₁ L₂ : List String) :
    run (R := R) (K := K) (L₁ ++ c :: L₂) = run (L₁ ++ c' :: L₂) := by
  unfold run
  simp only [List.foldlM_append, List.foldlM_cons, step_eq_act _ c, step_eq_act _ c', same]

/-- Malformed and unknown commands change no run of the circuit runner, in any arithmetic:
a blank command, one led by a word other than `init`, `h` and `x`, and `h` or `x` without an
integer after it can be taken out of any list of commands, wherever they stand, and the run
returns the same outcome or stops with the same fault. Commands that differ only in the case of
their letters and in the blanks around them can replace each other. -/
theorem run_skips_malformed_commands (L₁ L₂ : List String) :
    (∀ c, Skipped c → run (R := R) (K := K) (L₁ ++ c :: L₂) = run (L₁ ++ L₂)) ∧
    ∀ c c', (trimBlank c).toList.map readAs = (trimBlank c').toList.map readAs →
      run (R := R) (K := K) (L₁ ++ c :: L₂) = run (L₁ ++ c' :: L₂) :=
  ⟨fun _ skipped => run_skip (R := R) (K := K) (readCommand_of_skipped skipped) L₁ L₂,
    fun _ _ alike => run_congr (R := R) (K := K) (readCommand_congr alike) L₁ L₂⟩

theorem run_skips_malformed_commands_two_qubits :
    Skipped "noop 0" ∧ (trimBlank "  H 1 ").toList.map readAs = (trimBlank "h 1").toList.map readAs ∧
    run (R := Float) (K := DComplex) (["init 2"] ++ "noop 0" :: ["x 1"]) =
      run (["init 2"] ++ ["x 1"]) ∧
    run (R := Float) (K := DComplex) (["init 2"] ++ "  H 1 " :: []) =
      run (["init 2"] ++ "h 1" :: []) := by
  have skipped : Skipped "noop 0" := by decide +kernel
  have alike : (trimBlank "  H 1 ").toList.map readAs = (trimBlank "h 1").toList.map readAs := by
    decide +kernel
  exact ⟨skipped, alike, (run_skips_malformed_commands _ _).1 _ skipped,
    (run_skips_malformed_commands _ _).2 _ _ alike⟩

end Qubits.Circuit
