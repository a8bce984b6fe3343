import Qubits.Proofs.CommandText

/-!
# Commands in canonical syntax

The samples write every command the same way: the command word, a blank, the operands with each
qubit as `q[k]` and a range as `q[i:j]`, the parts of `sk`, `cx` and `csk` separated by `, `, and a
closing `;`, after which the line may go on with anything but another `;`. This module writes
such commands (`Canonical.text`) and shows that the operands reader gets back the numbers
written (`operands_canonical`): a lone qubit by all its digits, however many, a range bound of one
or two digits by the rule for bounds, and the exponent of `csk` by the integer reader, as long as
it has no more digits than that reader accepts (`operands_csk_too_long`).
-/

namespace Qubits.Text

/-! ## Characters that are no digits -/

theorem isDigitChar_of_lt {c : Char} (h : c.toNat < 48 ∨ 58 ≤ c.toNat ∧ c.toNat < 0xB2) :
    isDigitChar c = false := by
  have decimal : decimalValue? c = none := by
    unfold decimalValue?
    rw [Option.map_eq_none_iff, Array.find?_eq_none]
    intro z mem
    simp only [decimalZeros, List.mem_toArray, List.mem_cons, List.not_mem_nil, or_false] at mem
    simp only [decide_eq_true_eq, not_and, not_lt]
    omega
  unfold isDigitChar
  rw [decimal, Option.isSome_none, Bool.false_or, Array.any_eq_false']
  -- no range of the other digits starts below the superscript two
  rintro ⟨lo, hi⟩ mem
  simp only [otherDigitRanges, List.mem_toArray, List.mem_cons, List.not_mem_nil, or_false,
    Prod.mk.injEq] at mem
  simp only [decide_eq_true_eq, not_and, not_le]
  omega

end Qubits.Text

namespace Qubits.Script

open Text

/-! ## Digits among other characters -/

theorem digitValues_append (l₁ l₂ : List Char) :
    digitValues (l₁ ++ l₂) = (do
      let d₁ ← digitValues l₁
      let d₂ ← digitValues l₂
      pure (d₁ ++ d₂)) := by
  unfold digitValues
  rw [List.filter_append, List.mapM_append]

theorem digitValues_of_not_digit {l : List Char} (h : ∀ c ∈ l, isDigitChar c = false) :
    digitValues l = .ok [] := by
  unfold digitValues
  rw [List.filter_eq_nil_iff.mpr (by simpa using h)]
  rfl

def decimalDigits (k : ℕ) : List ℕ := (toString k).toList.map (·.toNat - 48)

theorem digitValues_toString (k : ℕ) : digitValues (toString k).toList = .ok (decimalDigits k) :=
  digitValues_of_digits fun _ => isDigit_of_mem_toString

theorem numberOf_decimalDigits (k : ℕ) : numberOf (decimalDigits k) = k := numberOf_toString k

theorem boundOf_decimalDigits {k : ℕ} (hk : k < 100) : boundOf (decimalDigits k) = some (k : ℤ) := by
  have digits : (toString k).toList = Nat.toDigits 10 k := by
    rw [Nat.toString_eq_repr, Nat.toList_repr]
  by_cases one : k < 10
  · simp [decimalDigits, Nat.toDigits_of_lt_base one, boundOf,
      Nat.toNat_digitChar_sub_48_of_lt_ten one]
  · have high : k / 10 < 10 := by omega
    have low : k % 10 < 10 := Nat.mod_lt _ (by norm_num)
    rw [decimalDigits, digits, Nat.toDigits_of_base_le (by norm_num) (by omega),
      Nat.toDigits_of_lt_base high]
    simp only [List.cons_append, List.nil_append, List.map_cons, List.map_nil, boundOf,
      Nat.toNat_digitChar_sub_48_of_lt_ten high, Nat.toNat_digitChar_sub_48_of_lt_ten low]
    congr 1
    omega

theorem not_mem_toString {sep : Char} (notDigit : sep.isDigit = false) (k : ℕ) :
    sep ∉ (toString k).toList := fun mem => by
  rw [isDigit_of_mem_toString mem] at notDigit
  cases notDigit

theorem not_mem_toString_int {sep : Char} (notDigit : sep.isDigit = false) (notMinus : sep ≠ '-')
    (κ : ℤ) : sep ∉ (toString κ).toList := by
  cases κ with
  | ofNat k => exact not_mem_toString notDigit k
  | negSucc k =>
    show sep ∉ ("-" ++ toString (k + 1)).toList
    simpa [notMinus] using not_mem_toString notDigit (k + 1)

/-! ## Splitting at the last separator -/

theorem splitLast_append_sep_append (sep : Char) (pre post : List Char) (absent : sep ∉ post) :
    splitLast sep (pre ++ sep :: post) = (pre, true, post) := by
  have kept : ∀ c ∈ post.reverse, (c != sep) = true := by
    intro c mem
    have : c ≠ sep := fun eq => absent (eq ▸ List.mem_reverse.mp mem)
    simpa using this
  unfold splitLast
  rw [List.reverse_append, List.reverse_cons, List.append_assoc, List.singleton_append,
    List.span_eq_takeWhile_dropWhile, List.takeWhile_append_of_pos kept,
    List.dropWhile_append_of_pos kept]
  simp

/-! ## Reading an integer -/

theorem readInt_blank_signed {ds : List Char} (digits : ∀ c ∈ ds, c.isDigit = true)
    (nonempty : ds ≠ []) (negative : Bool) :
    readInt (String.ofList (' ' :: (if negative then '-' :: ds else ds))) =
      if maxIntDigits < ds.length then .error (.tooManyDigits ds.length)
      else .ok (if negative then -(Nat.ofDigitChars 10 ds 0 : ℤ) else Nat.ofDigitChars 10 ds 0) := by
  obtain ⟨first, tail, rfl⟩ := List.exists_cons_of_ne_nil nonempty
  have firstDigit : first.isDigit = true := digits first (by simp)
  have range := toNat_of_isDigit firstDigit
  have ascii : (first :: tail).map asciiForm = first :: tail := by
    conv => rhs; rw [← List.map_id (first :: tail)]
    exact List.map_congr_left fun c mem => asciiForm_of_isDigit (digits c mem)
  -- the blank goes, and the sign, if any, stands before the digits
  have cleaned : ((' ' :: (if negative then '-' :: first :: tail else first :: tail)).map
      asciiForm).dropWhile isAsciiBlank = if negative then '-' :: first :: tail else first :: tail := by
    have notBlank : isAsciiBlank first = false := isAsciiBlank_of_isDigit firstDigit
    have blank : isAsciiBlank (asciiForm ' ') = true := by decide
    cases negative
    · rw [if_neg Bool.false_ne_true, List.map_cons, ascii, List.dropWhile_cons_of_pos blank,
        List.dropWhile_cons_of_neg (by simp [notBlank])]
    · rw [if_pos rfl, List.map_cons, List.map_cons, ascii, List.dropWhile_cons_of_pos blank,
        List.dropWhile_cons_of_neg (by decide)]
      rfl
  have read : readDigits (first :: tail) 0 0 false =
      .ok (Nat.ofDigitChars 10 (first :: tail) 0, (first :: tail).length, []) := by
    have whole := readDigits_digits digits 0 0 []
    rw [List.append_nil] at whole
    rw [whole, readDigits]
    simp
  have notSign : first ≠ '-' ∧ first ≠ '+' ∧ first ≠ '_' := by
    refine ⟨?_, ?_, ?_⟩ <;> rintro rfl <;> simp at range
  unfold readInt
  rw [String.toList_ofList, cleaned]
  -- what is left is the check of the number of digits
  cases negative <;>
    simp [notSign.1, notSign.2.1, notSign.2.2, read, bind, Except.bind, pure, Except.pure,
      throw, throwThe, MonadExceptOf.throw]

theorem readInt_blank_toString (κ : ℤ) :
    readInt (" " ++ toString κ) =
      if κ.natAbs < 10 ^ maxIntDigits then .ok κ
      else .error (.tooManyDigits (Nat.toDigits 10 κ.natAbs).length) := by
  have digits : ∀ c ∈ Nat.toDigits 10 κ.natAbs, c.isDigit = true :=
    fun c => Nat.isDigit_of_mem_toDigits (by decide) (by decide)
  have short : (Nat.toDigits 10 κ.natAbs).length ≤ maxIntDigits ↔ κ.natAbs < 10 ^ maxIntDigits :=
    Nat.length_toDigits_le_iff (by decide) (by decide)
  have text : " " ++ toString κ =
      String.ofList (' ' :: if decide (κ < 0) then '-' :: Nat.toDigits 10 κ.natAbs
        else Nat.toDigits 10 κ.natAbs) := by
    apply String.toList_inj.mp
    cases κ with
    | ofNat k =>
      show (" " ++ toString k).toList = _
      simp
    | negSucc k =>
      show (" " ++ ("-" ++ toString (k + 1))).toList = _
      simp [Int.negSucc_lt_zero, Int.natAbs_negSucc]
  rw [text, readInt_blank_signed digits Nat.toDigits_ne_nil, Nat.ofDigitChars_ten_toDigits]
  by_cases fits : κ.natAbs < 10 ^ maxIntDigits
  · rw [if_neg (not_lt.mpr (short.mpr fits)), if_pos fits]
    congr 1
    cases κ with
    | ofNat k => simp
    | negSucc k =>
      simp only [Int.negSucc_lt_zero, decide_true, if_pos, Int.natAbs_negSucc]
      rfl
  · rw [if_pos (not_le.mp (mt short.mp fits)), if_neg fits]

theorem readInt_blank_append (s : String) : readInt (" " ++ s) = readInt s := by
  have dropped : ((" " ++ s).toList.map asciiForm).dropWhile isAsciiBlank =
      (s.toList.map asciiForm).dropWhile isAsciiBlank := by
    rw [String.toList_append, List.map_append]
    exact List.dropWhile_cons_of_pos (by decide)
  unfold readInt
  rw [dropped]

theorem readInt_toString_of_le {k : ℕ} (hk : 10 ^ maxIntDigits ≤ k) :
    readInt (toString k) = .error (.tooManyDigits (Nat.toDigits 10 k).length) := by
  have long := readInt_blank_toString (k : ℤ)
  rw [if_neg (by omega), Int.natAbs_natCast] at long
  rw [← readInt_blank_append, ← long]
  rfl

/-! ## The readers of the operands -/

section Readers

variable (pre post : List Char)

theorem digitValues_around (hpre : ∀ c ∈ pre, isDigitChar c = false)
    (hpost : ∀ c ∈ post, isDigitChar c = false) (k : ℕ) :
    digitValues (pre ++ (toString k).toList ++ post) = .ok (decimalDigits k) := by
  rw [digitValues_append_of_not_digit hpre hpost, digitValues_toString]

theorem rangeOf_single {name : String} {single : List ℕ → Option ℤ}
    (hpre : ∀ c ∈ pre, isDigitChar c = false) (hpost : ∀ c ∈ post, isDigitChar c = false)
    {k : ℕ} (colon : ':' ∉ pre ++ (toString k).toList ++ post) {v : ℤ}
    (value : single (decimalDigits k) = some v) :
    rangeOf name single (pre ++ (toString k).toList ++ post) = .ok (some v, some v) := by
  unfold rangeOf
  rw [splitLast_of_not_mem colon]
  simp only [digitValues_around pre post hpre hpost, value, needBound, bind, Except.bind, pure,
    Except.pure]

theorem rangeOf_range {name : String} {single : List ℕ → Option ℤ}
    (hpre : ∀ c ∈ pre, isDigitChar c = false) (hpost : ∀ c ∈ post, isDigitChar c = false)
    (a b : ℕ) (colon : ':' ∉ post) :
    rangeOf name single (pre ++ (toString a).toList ++ ':' :: ((toString b).toList ++ post)) =
      .ok (boundOf (decimalDigits a), boundOf (decimalDigits b)) := by
  have after : ':' ∉ (toString b).toList ++ post := fun mem =>
    (List.mem_append.mp mem).elim (not_mem_toString (by decide) b) colon
  have front : digitValues (pre ++ (toString a).toList) = .ok (decimalDigits a) := by
    rw [digitValues_append, digitValues_of_not_digit hpre, digitValues_toString]
    rfl
  have back : digitValues ((toString b).toList ++ post) = .ok (decimalDigits b) := by
    rw [digitValues_append, digitValues_of_not_digit hpost, digitValues_toString]
    simp [bind, Except.bind, pure, Except.pure]
  unfold rangeOf
  rw [splitLast_append_sep_append _ _ _ after]
  simp only [front, back, bind, Except.bind, pure, Except.pure]

end Readers

/-! ## Canonical commands -/

inductive Canonical where
  | qubit (word : String) (a : ℕ)
  | number (word : String) (a : ℕ)
  | range (word : String) (a b : ℕ)
  | phase (a k : ℕ)
  | phaseRange (a b k : ℕ)
  | controlledNot (c t : ℕ)
  | controlsRange (a b t : ℕ)
  | targetsRange (c a b : ℕ)
  | controlledPhase (c t : ℕ) (κ : ℤ)
  | modular (N m : ℕ)

def qubitText (a : ℕ) : String := "q[" ++ toString a ++ "]"

def rangeText (a b : ℕ) : String := "q[" ++ toString a ++ ":" ++ toString b ++ "]"

def Canonical.word : Canonical → String
  | .qubit w _ | .number w _ | .range w _ _ => w
  | .phase .. | .phaseRange .. => "sk"
  | .controlledNot .. | .controlsRange .. | .targetsRange .. => "cx"
  | .controlledPhase .. => "csk"
  | .modular .. => "N&m"

def Canonical.operandText : Canonical → String
  | .qubit _ a => qubitText a
  | .number _ a => toString a
  | .range _ a b => rangeText a b
  | .phase a k => qubitText a ++ ", " ++ toString k
  | .phaseRange a b k => rangeText a b ++ ", " ++ toString k
  | .controlledNot c t => qubitText c ++ ", " ++ qubitText t
  | .controlsRange a b t => rangeText a b ++ ", " ++ qubitText t
  | .targetsRange c a b => qubitText c ++ ", " ++ rangeText a b
  | .controlledPhase c t κ => qubitText c ++ ", " ++ qubitText t ++ ", " ++ toString κ
  | .modular N m => toString N ++ "," ++ toString m

def Canonical.text (c : Canonical) : String := c.word ++ " " ++ c.operandText ++ ";"

def Canonical.values : Canonical → Operands
  | .qubit _ a | .number _ a => ⟨a, a, -1, -1⟩
  | .range _ a b => ⟨a, b, -1, -1⟩
  | .phase a k => ⟨a, a, k, -1⟩
  | .phaseRange a b k => ⟨a, b, k, -1⟩
  | .controlledNot c t => ⟨c, c, t, t⟩
  | .controlsRange a b t => ⟨a, b, t, t⟩
  | .targetsRange c a b => ⟨c, c, a, b⟩
  | .controlledPhase c t κ => ⟨c, t, κ, -1⟩
  | .modular N m => ⟨N, m, -1, -1⟩

def RangeWord (w : String) : Prop := PlainWord w ∧ w ∉ ["cx", "sk", "csk", "N&m"]

instance (w : String) : Decidable (RangeWord w) := inferInstanceAs (Decidable (_ ∧ _))

theorem rangeWord_of_mem {w : String}
    (mem : w ∈ rangeWords ++ ["QFT", "IQFT", "Sign", "reverse"] ++ settingWords.erase "N&m") :
    RangeWord w := by
  revert w
  decide +kernel

/-- What the readers need of a command: a word of the range family where the word is free, qubit
numbers of at most two digits where a bound or a qubit of `sk`, `cx` or `csk` is read, and an
exponent of `csk` with no more digits than the integer reader accepts. -/
def Canonical.Readable : Canonical → Prop
  | .qubit w _ | .number w _ => RangeWord w
  | .range w a b => RangeWord w ∧ a < 100 ∧ b < 100
  | .phase a _ => a < 100
  | .phaseRange a b _ => a < 100 ∧ b < 100
  | .controlledNot c t => c < 100 ∧ t < 100
  | .controlsRange a b t => a < 100 ∧ b < 100 ∧ t < 100
  | .targetsRange c a b => c < 100 ∧ a < 100 ∧ b < 100
  | .controlledPhase c t κ => c < 100 ∧ t < 100 ∧ κ.natAbs < 10 ^ maxIntDigits
  | .modular .. => True

/-! ## The operands of each family -/

section Families

variable {w : String}

theorem word_append_not_digit (plain : PlainWord w) {l : List Char}
    (h : ∀ c ∈ l, isDigitChar c = false) : ∀ c ∈ w.toList ++ l, isDigitChar c = false := by
  intro c mem
  rcases List.mem_append.mp mem with inWord | inPunctuation
  · exact plain.not_digit c inWord
  · exact h c inPunctuation

theorem colon_not_mem_number {pre post : List Char} (hpre : ':' ∉ pre) (hpost : ':' ∉ post)
    (k : ℕ) : ':' ∉ pre ++ (toString k).toList ++ post := by
  simp only [List.mem_append, not_or]
  exact ⟨⟨hpre, not_mem_toString (by decide) k⟩, hpost⟩

theorem rangeOperands_qubit (plain : PlainWord w) (a : ℕ) :
    rangeOperands (w ++ " " ++ qubitText a).toList = .ok ⟨a, a, -1, -1⟩ := by
  have shape : (w ++ " " ++ qubitText a).toList =
      (w.toList ++ [' ', 'q', '[']) ++ (toString a).toList ++ [']'] := by simp [qubitText]
  have colon : ':' ∉ (w.toList ++ [' ', 'q', '[']) ++ (toString a).toList ++ [']'] :=
    colon_not_mem_number (by simpa using plain.not_colon) (by decide) a
  unfold rangeOperands
  rw [shape, rangeOf_single _ _ (word_append_not_digit plain (by simp [isDigitChar_of_lt]))
    (by simp [isDigitChar_of_lt]) colon rfl]
  simp [numberOf_decimalDigits, needBound, bind, Except.bind, pure, Except.pure]

theorem rangeOperands_number (plain : PlainWord w) (a : ℕ) :
    rangeOperands (w ++ " " ++ toString a).toList = .ok ⟨a, a, -1, -1⟩ := by
  have shape : (w ++ " " ++ toString a).toList = (w.toList ++ [' ']) ++ (toString a).toList ++ [] := by
    simp
  have colon : ':' ∉ (w.toList ++ [' ']) ++ (toString a).toList ++ [] :=
    colon_not_mem_number (by simpa using plain.not_colon) (by decide) a
  unfold rangeOperands
  rw [shape, rangeOf_single _ _ (word_append_not_digit plain (by simp [isDigitChar_of_lt]))
    (by simp) colon rfl]
  simp [numberOf_decimalDigits, needBound, bind, Except.bind, pure, Except.pure]

theorem rangeOperands_range (plain : PlainWord w) {a b : ℕ} (ha : a < 100) (hb : b < 100) :
    rangeOperands (w ++ " " ++ rangeText a b).toList = .ok ⟨a, b, -1, -1⟩ := by
  have shape : (w ++ " " ++ rangeText a b).toList = (w.toList ++ [' ', 'q', '[']) ++
      (toString a).toList ++ ':' :: ((toString b).toList ++ [']']) := by
    simp [rangeText]
  unfold rangeOperands
  rw [shape, rangeOf_range (w.toList ++ [' ', 'q', '[']) [']']
    (word_append_not_digit plain (by simp [isDigitChar_of_lt])) (by simp [isDigitChar_of_lt])
    a b (by decide), boundOf_decimalDigits ha, boundOf_decimalDigits hb]
  simp [needBound, bind, Except.bind, pure, Except.pure]

theorem digitValues_blank_number (k : ℕ) :
    digitValues ([' '] ++ (toString k).toList ++ []) = .ok (decimalDigits k) :=
  digitValues_around _ _ (by simp [isDigitChar_of_lt]) (by simp) k

theorem comma_not_mem_blank_number (k : ℕ) : ',' ∉ [' '] ++ (toString k).toList ++ [] := by
  simpa using not_mem_toString (show ','.isDigit = false by decide) k

theorem phaseOperands_qubit {a : ℕ} (ha : a < 100) (k : ℕ) :
    phaseOperands ("sk" ++ " " ++ (qubitText a ++ ", " ++ toString k)).toList =
      .ok ⟨a, a, k, -1⟩ := by
  have shape : ("sk" ++ " " ++ (qubitText a ++ ", " ++ toString k)).toList =
      (['s', 'k', ' ', 'q', '['] ++ (toString a).toList ++ [']']) ++
        ',' :: ([' '] ++ (toString k).toList ++ []) := by
    simp [qubitText]
  have colon : ':' ∉ ['s', 'k', ' ', 'q', '['] ++ (toString a).toList ++ [']'] :=
    colon_not_mem_number (by decide) (by decide) a
  unfold phaseOperands
  rw [shape, splitLast_append_sep_append _ _ _ (comma_not_mem_blank_number k)]
  simp only [rangeOf_single _ _ (by simp [isDigitChar_of_lt]) (by simp [isDigitChar_of_lt])
    colon (boundOf_decimalDigits ha), digitValues_blank_number, numberOf_decimalDigits, needBound, bind,
    Except.bind, pure, Except.pure]

theorem phaseOperands_range {a b : ℕ} (ha : a < 100) (hb : b < 100) (k : ℕ) :
    phaseOperands ("sk" ++ " " ++ (rangeText a b ++ ", " ++ toString k)).toList =
      .ok ⟨a, b, k, -1⟩ := by
  have shape : ("sk" ++ " " ++ (rangeText a b ++ ", " ++ toString k)).toList =
      (['s', 'k', ' ', 'q', '['] ++ (toString a).toList ++ ':' :: ((toString b).toList ++ [']'])) ++
        ',' :: ([' '] ++ (toString k).toList ++ []) := by
    simp [rangeText]
  unfold phaseOperands
  rw [shape, splitLast_append_sep_append _ _ _ (comma_not_mem_blank_number k)]
  simp only [rangeOf_range ['s', 'k', ' ', 'q', '['] [']'] (by simp [isDigitChar_of_lt])
    (by simp [isDigitChar_of_lt]) a b (by decide), boundOf_decimalDigits ha,
    boundOf_decimalDigits hb, digitValues_blank_number, numberOf_decimalDigits, needBound, bind,
    Except.bind, pure, Except.pure]

theorem rangeOf_target {name : String} {t : ℕ} (ht : t < 100) :
    rangeOf name boundOf ([' ', 'q', '['] ++ (toString t).toList ++ [']']) = .ok (some t, some t) :=
  rangeOf_single _ _ (by simp [isDigitChar_of_lt]) (by simp [isDigitChar_of_lt])
    (colon_not_mem_number (by decide) (by decide) t) (boundOf_decimalDigits ht)

theorem comma_not_mem_target (t : ℕ) : ',' ∉ [' ', 'q', '['] ++ (toString t).toList ++ [']'] := by
  simpa using not_mem_toString (show ','.isDigit = false by decide) t

theorem comma_not_mem_targets (a b : ℕ) :
    ',' ∉ [' ', 'q', '['] ++ (toString a).toList ++ ':' :: ((toString b).toList ++ [']']) := by
  simp only [List.mem_append, List.mem_cons, List.not_mem_nil, or_false, not_or]
  refine ⟨⟨?_, not_mem_toString (by decide) a⟩, ?_, not_mem_toString (by decide) b, ?_⟩ <;> decide

theorem controlledOperands_qubits {c t : ℕ} (hc : c < 100) (ht : t < 100) :
    controlledOperands ("cx" ++ " " ++ (qubitText c ++ ", " ++ qubitText t)).toList =
      .ok ⟨c, c, t, t⟩ := by
  have shape : ("cx" ++ " " ++ (qubitText c ++ ", " ++ qubitText t)).toList =
      (['c', 'x', ' ', 'q', '['] ++ (toString c).toList ++ [']']) ++
        ',' :: ([' ', 'q', '['] ++ (toString t).toList ++ [']']) := by
    simp [qubitText]
  unfold controlledOperands
  rw [shape, splitLast_append_sep_append _ _ _ (comma_not_mem_target t)]
  simp only [rangeOf_single ['c', 'x', ' ', 'q', '['] [']'] (by simp [isDigitChar_of_lt])
    (by simp [isDigitChar_of_lt]) (colon_not_mem_number (by decide) (by decide) c)
    (boundOf_decimalDigits hc),
    rangeOf_target ht, needBound, bind, Except.bind, pure, Except.pure]

theorem controlledOperands_controls {a b t : ℕ} (ha : a < 100) (hb : b < 100) (ht : t < 100) :
    controlledOperands ("cx" ++ " " ++ (rangeText a b ++ ", " ++ qubitText t)).toList =
      .ok ⟨a, b, t, t⟩ := by
  have shape : ("cx" ++ " " ++ (rangeText a b ++ ", " ++ qubitText t)).toList =
      (['c', 'x', ' ', 'q', '['] ++ (toString a).toList ++ ':' :: ((toString b).toList ++ [']'])) ++
        ',' :: ([' ', 'q', '['] ++ (toString t).toList ++ [']']) := by
    simp [rangeText, qubitText]
  unfold controlledOperands
  rw [shape, splitLast_append_sep_append _ _ _ (comma_not_mem_target t)]
  simp only [rangeOf_range ['c', 'x', ' ', 'q', '['] [']'] (by simp [isDigitChar_of_lt])
    (by simp [isDigitChar_of_lt]) a b (by decide), boundOf_decimalDigits ha,
    boundOf_decimalDigits hb, rangeOf_target ht, needBound, bind, Except.bind, pure, Except.pure]

theorem controlledOperands_targets {c a b : ℕ} (hc : c < 100) (ha : a < 100) (hb : b < 100) :
    controlledOperands ("cx" ++ " " ++ (qubitText c ++ ", " ++ rangeText a b)).toList =
      .ok ⟨c, c, a, b⟩ := by
  have shape : ("cx" ++ " " ++ (qubitText c ++ ", " ++ rangeText a b)).toList =
      (['c', 'x', ' ', 'q', '['] ++ (toString c).toList ++ [']']) ++
        ',' :: ([' ', 'q', '['] ++ (toString a).toList ++ ':' :: ((toString b).toList ++ [']'])) := by
    simp [rangeText, qubitText]
  unfold controlledOperands
  rw [shape, splitLast_append_sep_append _ _ _ (comma_not_mem_targets a b)]
  simp only [rangeOf_single ['c', 'x', ' ', 'q', '['] [']'] (by simp [isDigitChar_of_lt])
    (by simp [isDigitChar_of_lt]) (colon_not_mem_number (by decide) (by decide) c)
    (boundOf_decimalDigits hc),
    rangeOf_range [' ', 'q', '['] [']'] (by simp [isDigitChar_of_lt]) (by simp [isDigitChar_of_lt])
    a b (by decide), boundOf_decimalDigits ha, boundOf_decimalDigits hb, needBound, bind,
    Except.bind, pure, Except.pure]

theorem modularOperands_numbers (N m : ℕ) :
    modularOperands ("N&m" ++ " " ++ (toString N ++ "," ++ toString m)).toList =
      .ok ⟨N, m, -1, -1⟩ := by
  have shape : ("N&m" ++ " " ++ (toString N ++ "," ++ toString m)).toList =
      (['N', '&', 'm', ' '] ++ (toString N).toList ++ []) ++ ',' :: ([] ++ (toString m).toList ++ []) := by
    simp
  have modulus := digitValues_around ['N', '&', 'm', ' '] [] (by simp [isDigitChar_of_lt]) (by simp) N
  have base := digitValues_around [] [] (by simp) (by simp) m
  unfold modularOperands
  rw [shape, splitLast_append_sep_append _ _ _ (by simpa using not_mem_toString (by decide) m)]
  simp only [modulus, base, numberOf_decimalDigits, bind, Except.bind, pure, Except.pure]

theorem digitValues_blank_int (κ : ℤ) :
    digitValues (' ' :: (toString κ).toList) = .ok (decimalDigits κ.natAbs) := by
  cases κ with
  | ofNat k =>
    have read := digitValues_around [' '] [] (by simp [isDigitChar_of_lt]) (by simp) k
    rwa [List.append_nil, List.singleton_append] at read
  | negSucc k =>
    have shape : ' ' :: (toString (Int.negSucc k)).toList = [' ', '-'] ++ (toString (k + 1)).toList ++ [] := by
      show ' ' :: ("-" ++ toString (k + 1)).toList = _
      simp
    rw [shape, digitValues_around _ _ (by simp [isDigitChar_of_lt]) (by simp)]
    rfl

theorem controlledPhaseOperands_qubits {c t : ℕ} (hc : c < 100) (ht : t < 100) (κ : ℤ) :
    controlledPhaseOperands
        ("csk" ++ " " ++ (qubitText c ++ ", " ++ qubitText t ++ ", " ++ toString κ)).toList =
      if κ.natAbs < 10 ^ maxIntDigits then .ok ⟨c, t, κ, -1⟩
      else .error (.intTooLong (Nat.toDigits 10 κ.natAbs).length) := by
  have shape : ("csk" ++ " " ++ (qubitText c ++ ", " ++ qubitText t ++ ", " ++ toString κ)).toList =
      ((['c', 's', 'k', ' ', 'q', '['] ++ (toString c).toList ++ [']']) ++
        ',' :: ([' ', 'q', '['] ++ (toString t).toList ++ [']'])) ++ ',' :: (' ' :: (toString κ).toList) := by
    simp [qubitText]
  have noColon : ':' ∉ ((['c', 's', 'k', ' ', 'q', '['] ++ (toString c).toList ++ [']']) ++
      ',' :: ([' ', 'q', '['] ++ (toString t).toList ++ [']'])) ++ ',' :: (' ' :: (toString κ).toList) := by
    simp only [List.mem_append, List.mem_cons, List.not_mem_nil, or_false, not_or]
    refine ⟨⟨⟨⟨?_, not_mem_toString (by decide) c⟩, ?_⟩, ?_, ⟨?_, not_mem_toString (by decide) t⟩, ?_⟩,
      ?_, ?_, not_mem_toString_int (by decide) (by decide) κ⟩ <;> decide
  have lastComma : ',' ∉ ' ' :: (toString κ).toList := by
    simpa using not_mem_toString_int (show ','.isDigit = false by decide) (by decide) κ
  have exponent : readInt (String.ofList (' ' :: (toString κ).toList)) = readInt (" " ++ toString κ) := by
    congr 1
    apply String.toList_inj.mp
    simp
  unfold controlledPhaseOperands
  rw [shape, if_neg (by simpa using noColon), splitLast_append_sep_append _ _ _ lastComma]
  dsimp only
  rw [splitLast_append_sep_append _ _ _ (comma_not_mem_target t)]
  simp only [digitValues_around ['c', 's', 'k', ' ', 'q', '['] [']'] (by simp [isDigitChar_of_lt])
    (by simp [isDigitChar_of_lt]), boundOf_decimalDigits hc,
    digitValues_around [' ', 'q', '['] [']'] (by simp [isDigitChar_of_lt])
    (by simp [isDigitChar_of_lt]), boundOf_decimalDigits ht, digitValues_blank_int, exponent,
    readInt_blank_toString, needBound, bind, Except.bind, pure, Except.pure]
  by_cases fits : κ.natAbs < 10 ^ maxIntDigits
  · rw [if_pos fits, if_pos fits]
  · rw [if_neg fits, if_neg fits]
    rfl

end Families

namespace Canonical

theorem plainWord {c : Canonical} (readable : c.Readable) : PlainWord c.word := by
  cases c with
  | qubit w a => exact readable.1
  | number w a => exact readable.1
  | range w a b => exact readable.1.1
  | phase | phaseRange => exact (by decide +kernel : PlainWord "sk")
  | controlledNot | controlsRange | targetsRange => exact (by decide +kernel : PlainWord "cx")
  | controlledPhase => exact (by decide +kernel : PlainWord "csk")
  | modular => exact (by decide +kernel : PlainWord "N&m")

theorem toList_text (c : Canonical) (rest : String) :
    (c.text ++ rest).toList = (c.word ++ " " ++ c.operandText).toList ++ ';' :: rest.toList := by
  simp [text]

theorem splitLast_text (c : Canonical) {rest : String} (absent : ';' ∉ rest.toList) :
    splitLast ';' (c.text ++ rest).toList = ((c.word ++ " " ++ c.operandText).toList, true, rest.toList) := by
  rw [toList_text, splitLast_append_sep_append _ _ _ absent]

theorem words_body {c : Canonical} (plain : PlainWord c.word) :
    words (String.ofList (c.word ++ " " ++ c.operandText).toList) =
      c.word :: words c.operandText := by
  have shape : (c.word ++ " " ++ c.operandText).toList =
      c.word.toList ++ ' ' :: c.operandText.toList := by simp
  rw [shape, words_ofList_append plain.toList_ne_nil plain.not_blank (by decide)]
  simp

theorem commandWord_text {c : Canonical} (plain : PlainWord c.word) {rest : String}
    (absent : ';' ∉ rest.toList) : commandWord (c.text ++ rest) = .ok c.word := by
  rw [commandWord, splitLast_text c absent, words_body plain]

theorem lineWord_text {c : Canonical} (plain : PlainWord c.word) {rest : String}
    (absent : ';' ∉ rest.toList) : lineWord (c.text ++ rest) = c.word := by
  rw [lineWord, splitLast_text c absent, words_body plain]
  rfl

end Canonical

/-! ## Reading canonical commands -/

theorem operands_controlledPhase {c t : ℕ} (hc : c < 100) (ht : t < 100) (κ : ℤ) {rest : String}
    (absent : ';' ∉ rest.toList) :
    operands ((Canonical.controlledPhase c t κ).text ++ rest) =
      if κ.natAbs < 10 ^ maxIntDigits then .ok ⟨c, t, κ, -1⟩
      else .error (.intTooLong (Nat.toDigits 10 κ.natAbs).length) := by
  have plain : PlainWord (Canonical.controlledPhase c t κ).word := (by decide +kernel : PlainWord "csk")
  rw [operands, Canonical.commandWord_text plain absent, Canonical.splitLast_text _ absent]
  simp only [bind, Except.bind, Canonical.word, Canonical.operandText]
  exact controlledPhaseOperands_qubits hc ht κ

theorem operands_canonical {c : Canonical} (readable : c.Readable) {rest : String}
    (absent : ';' ∉ rest.toList) : operands (c.text ++ rest) = .ok c.values := by
  have body : (splitLast ';' (c.text ++ rest).toList).1 = (c.word ++ " " ++ c.operandText).toList := by
    rw [Canonical.splitLast_text c absent]
  rw [operands, Canonical.commandWord_text (Canonical.plainWord readable) absent]
  simp only [bind, Except.bind, body]
  -- a word of the range family falls through to the last reader, the others select their own
  cases c with
  | qubit w a =>
    split
    case h_5 => exact rangeOperands_qubit readable.1 a
    all_goals exact absurd (by simp_all [Canonical.word]) readable.2
  | number w a =>
    split
    case h_5 => exact rangeOperands_number readable.1 a
    all_goals exact absurd (by simp_all [Canonical.word]) readable.2
  | range w a b =>
    split
    case h_5 => exact rangeOperands_range readable.1.1 readable.2.1 readable.2.2
    all_goals exact absurd (by simp_all [Canonical.word]) readable.1.2
  | phase a k => exact phaseOperands_qubit readable k
  | phaseRange a b k => exact phaseOperands_range readable.1 readable.2 k
  | controlledNot c t => exact controlledOperands_qubits readable.1 readable.2
  | controlsRange a b t => exact controlledOperands_controls readable.1 readable.2.1 readable.2.2
  | targetsRange c a b => exact controlledOperands_targets readable.1 readable.2.1 readable.2.2
  | controlledPhase c t κ =>
    simp only [Canonical.word, Canonical.operandText, Canonical.values]
    rw [controlledPhaseOperands_qubits readable.1 readable.2.1 κ, if_pos readable.2.2]
  | modular N m => exact modularOperands_numbers N m

theorem operands_canonical_range_comment :
    (Canonical.range "h" 0 3).Readable ∧ ';' ∉ " // all".toList ∧
      operands ((Canonical.range "h" 0 3).text ++ " // all") = .ok ⟨0, 3, -1, -1⟩ := by
  have readable : (Canonical.range "h" 0 3).Readable := ⟨by decide +kernel, by norm_num, by norm_num⟩
  have absent : ';' ∉ " // all".toList := by decide
  exact ⟨readable, absent, operands_canonical readable absent⟩

/-- An exponent of `csk` one digit longer than the integer reader accepts is refused, with the
number of its digits. -/
theorem operands_csk_too_long :
    operands (Canonical.controlledPhase 0 1 (10 ^ maxIntDigits)).text =
      .error (.intTooLong (maxIntDigits + 1)) := by
  have atLimit : ((10 : ℤ) ^ maxIntDigits).natAbs = 10 ^ maxIntDigits := by
    rw [Int.natAbs_pow, show (10 : ℤ).natAbs = 10 from rfl]
  have long : ¬ (Nat.toDigits 10 (10 ^ maxIntDigits)).length ≤ maxIntDigits := fun short =>
    lt_irrefl _ ((Nat.length_toDigits_le_iff (by norm_num) (by decide)).mp short)
  have fits : (Nat.toDigits 10 (10 ^ maxIntDigits)).length ≤ maxIntDigits + 1 :=
    (Nat.length_toDigits_le_iff (by norm_num) (by omega)).mpr
      (Nat.pow_lt_pow_right (by norm_num) (by omega))
  have refused := operands_controlledPhase (show 0 < 100 by norm_num) (show 1 < 100 by norm_num)
    ((10 : ℤ) ^ maxIntDigits) (show ';' ∉ "".toList by simp)
  have digits : (Nat.toDigits 10 (10 ^ maxIntDigits)).length = maxIntDigits + 1 := by omega
  rw [String.append_empty, atLimit, if_neg (lt_irrefl _), digits] at refused
  exact refused

end Qubits.Script
