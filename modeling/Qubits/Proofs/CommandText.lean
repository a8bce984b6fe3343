import Mathlib
import Qubits.Circuit.Run
import Qubits.Script.Program

namespace Qubits.Text

section Digits

variable {c : Char}

theorem toNat_of_isDigit (h : c.isDigit = true) : 48 ≤ c.toNat ∧ c.toNat ≤ 57 :=
  Char.isDigit_iff_toNat.mp h

theorem asciiDigit?_of_isDigit (h : c.isDigit = true) : asciiDigit? c = some (c.toNat - 48) := by
  unfold asciiDigit?
  rw [show ('0' ≤ c && c ≤ '9') = c.isDigit from rfl, h, if_pos rfl]

theorem decimalValue?_of_isDigit (h : c.isDigit = true) :
    decimalValue? c = some (c.toNat - 48) := by
  have range := toNat_of_isDigit h
  unfold decimalValue? decimalZeros
  simp [show 48 ≤ c.toNat ∧ c.toNat < 48 + 10 by omega]

theorem isDigitChar_of_isDigit (h : c.isDigit = true) : isDigitChar c = true := by
  simp [isDigitChar, decimalValue?_of_isDigit h]

theorem isBlank_of_isDigit (h : c.isDigit = true) : isBlank c = false := by
  have range := toNat_of_isDigit h
  simp only [isBlank, Bool.or_eq_false_iff, Bool.and_eq_false_iff, decide_eq_false_iff_not,
    beq_eq_false_iff_ne]
  omega

theorem isAsciiBlank_of_isDigit (h : c.isDigit = true) : isAsciiBlank c = false := by
  have range := toNat_of_isDigit h
  have ne : c ≠ ' ' := fun eq => by rw [eq] at range; simp at range
  simp only [isAsciiBlank, Bool.or_eq_false_iff, Bool.and_eq_false_iff, decide_eq_false_iff_not,
    beq_eq_false_iff_ne]
  exact ⟨ne, by omega⟩

theorem asciiForm_of_isDigit (h : c.isDigit = true) : asciiForm c = c := by
  have range := toNat_of_isDigit h
  simp [asciiForm, show c.toNat < 127 by omega]

theorem isDigit_of_mem_toString {k : ℕ} (h : c ∈ (toString k).toList) : c.isDigit = true := by
  rw [Nat.toString_eq_repr, Nat.toList_repr] at h
  exact Nat.isDigit_of_mem_toDigits (by decide) (by decide) h

end Digits

theorem readDigits_digits {ds : List Char} (digits : ∀ c ∈ ds, c.isDigit = true) (value count : ℕ)
    (rest : List Char) :
    readDigits (ds ++ rest) value count false =
      readDigits rest (Nat.ofDigitChars 10 ds value) (count + ds.length) false := by
  induction ds generalizing value count with
  | nil => simp
  | cons c ds ih =>
    have digit := digits c (by simp)
    rw [List.cons_append, readDigits, asciiDigit?_of_isDigit digit]
    dsimp only
    rw [ih (fun c' mem => digits c' (by simp [mem]))]
    simp [Nat.ofDigitChars_cons, Nat.add_assoc, Nat.add_comm 1]

theorem readInt_toString {k : ℕ} (hk : k < 10 ^ maxIntDigits) : readInt (toString k) = .ok k := by
  have digits : ∀ c ∈ (toString k).toList, c.isDigit = true := fun c => isDigit_of_mem_toString
  have ascii : (toString k).toList.map asciiForm = (toString k).toList := by
    conv => rhs; rw [← List.map_id (toString k).toList]
    exact List.map_congr_left fun c mem => asciiForm_of_isDigit (digits c mem)
  have length : (toString k).toList.length ≤ maxIntDigits := by
    rw [Nat.toString_eq_repr, Nat.toList_repr]
    exact (Nat.length_toDigits_le_iff (by decide) (by decide)).mpr hk
  obtain ⟨first, tail, text⟩ : ∃ first tail, (toString k).toList = first :: tail := by
    cases h : (toString k).toList with
    | nil => simp [Nat.toString_eq_repr, Nat.toList_repr, Nat.toDigits_ne_nil] at h
    | cons first tail => exact ⟨first, tail, rfl⟩
  have firstDigit : first.isDigit = true := digits first (by rw [text]; simp)
  have range := toNat_of_isDigit firstDigit
  have sign : first ≠ '-' ∧ first ≠ '+' ∧ first ≠ '_' := by
    refine ⟨?_, ?_, ?_⟩ <;> rintro rfl <;> simp at range
  have read :
      readDigits (toString k).toList 0 0 false = .ok (k, (toString k).toList.length, []) := by
    have whole := readDigits_digits digits 0 0 []
    rw [List.append_nil] at whole
    rw [whole, readDigits]
    simp [Nat.toString_eq_repr, Nat.toList_repr]
  unfold readInt
  rw [ascii, text, List.dropWhile_cons_of_neg (by simp [isAsciiBlank_of_isDigit firstDigit])]
  rw [text] at read length
  simp only [List.length_cons] at read length
  simp [sign.1, sign.2.1, sign.2.2, read, bind, Except.bind, not_lt.mpr length, pure, Except.pure]

theorem foldl_wordsStep_done (l : List Char) (done : List (List Char)) (current : List Char) :
    l.foldl wordsStep (done, current) =
      ((l.foldl wordsStep ([], current)).1 ++ done, (l.foldl wordsStep ([], current)).2) := by
  induction l generalizing done current with
  | nil => rfl
  | cons c l ih =>
    simp only [List.foldl_cons, wordsStep]
    by_cases blank : isBlank c
    · by_cases empty : current.isEmpty
      · simp only [blank, empty, if_true]
        exact ih done current
      · simp only [blank, empty, if_true, Bool.false_eq_true, if_false]
        rw [ih (current :: done) [], ih [current] []]
        simp
    · simp only [blank, Bool.false_eq_true, if_false]
      exact ih done (c :: current)

theorem foldl_wordsStep_word {w : List Char} (word : ∀ c ∈ w, isBlank c = false)
    (done : List (List Char)) (current : List Char) :
    w.foldl wordsStep (done, current) = (done, w.reverse ++ current) := by
  induction w generalizing current with
  | nil => rfl
  | cons c w ih =>
    rw [List.foldl_cons, wordsStep, if_neg (by simp [word c (by simp)]),
      ih (fun c' mem => word c' (by simp [mem]))]
    simp

theorem words_ofList_word {w : List Char} (nonempty : w ≠ []) (word : ∀ c ∈ w, isBlank c = false) :
    words (String.ofList w) = [String.ofList w] := by
  have notNil : w.reverse.isEmpty = false := by simpa using nonempty
  simp [words, foldl_wordsStep_word word, notNil]

theorem words_ofList_append {w : List Char} (nonempty : w ≠ []) (word : ∀ c ∈ w, isBlank c = false)
    {b : Char} (blank : isBlank b = true) (rest : List Char) :
    words (String.ofList (w ++ b :: rest)) = String.ofList w :: words (String.ofList rest) := by
  have notNil : w.reverse.isEmpty = false := by simpa using nonempty
  simp only [words, String.toList_ofList, List.foldl_append, List.foldl_cons,
    foldl_wordsStep_word word, wordsStep, blank, if_true, notNil, Bool.false_eq_true, if_false,
    List.append_nil]
  rw [foldl_wordsStep_done rest [w.reverse] []]
  split <;> simp

theorem trimBlank_of_ends {s : String} (first : ∀ c ∈ s.toList.head?, isBlank c = false)
    (last : ∀ c ∈ s.toList.getLast?, isBlank c = false) : trimBlank s = s := by
  have front : s.toList.dropWhile isBlank = s.toList := by
    cases h : s.toList with
    | nil => rfl
    | cons c cs =>
      rw [h] at first
      exact List.dropWhile_cons_of_neg (by simp [first c rfl])
  have back : s.toList.reverse.dropWhile isBlank = s.toList.reverse := by
    cases h : s.toList.reverse with
    | nil => rfl
    | cons c cs =>
      have isLast : c ∈ s.toList.getLast? := by
        rw [← List.head?_reverse, h]
        rfl
      exact List.dropWhile_cons_of_neg (by simp [last c isLast])
  simp [trimBlank, front, back]

theorem isBlank_of_isFileLineBreak {c : Char} (h : isFileLineBreak c = true) :
    isBlank c = true := by
  simp only [isFileLineBreak, Bool.or_eq_true, beq_iff_eq] at h
  rcases h with rfl | rfl <;> decide

theorem linesBy_line {l : List Char} (plain : ∀ c ∈ l, isFileLineBreak c = false)
    (current rest : List Char) :
    linesBy isFileLineBreak current (l ++ '\n' :: rest) =
      String.ofList (current.reverse ++ l) :: linesBy isFileLineBreak [] rest := by
  induction l generalizing current with
  | nil => simp [linesBy, isFileLineBreak]
  | cons c l ih =>
    have notBreak := plain c (by simp)
    have notReturn : c ≠ '\r' := by
      rintro rfl
      simp [isFileLineBreak] at notBreak
    rw [List.cons_append, linesBy]
    · rw [if_neg (by simp [notBreak]), ih (fun c' mem => plain c' (by simp [mem]))]
      simp
    · exact fun _ eq => absurd eq notReturn

def fileOfLines (lines : List String) : String := String.join (lines.map (· ++ "\n"))

theorem fileLines_fileOfLines {lines : List String}
    (plain : ∀ l ∈ lines, ∀ c ∈ l.toList, isFileLineBreak c = false) :
    fileLines (fileOfLines lines) = lines := by
  induction lines with
  | nil => rfl
  | cons l lines ih =>
    have rest := ih fun l' mem => plain l' (by simp [mem])
    unfold fileLines fileOfLines at rest ⊢
    rw [List.map_cons, String.join_cons, String.toList_append, String.toList_append,
      List.append_assoc, show "\n".toList = ['\n'] from rfl, List.singleton_append,
      linesBy_line (plain l (by simp)), rest]
    simp

end Qubits.Text

namespace Qubits.Script

open Text

theorem digitValues_of_digits {ds : List Char} (digits : ∀ c ∈ ds, c.isDigit = true) :
    digitValues ds = .ok (ds.map (·.toNat - 48)) := by
  have kept : ds.filter isDigitChar = ds :=
    List.filter_eq_self.mpr fun c mem => isDigitChar_of_isDigit (digits c mem)
  unfold digitValues
  rw [kept]
  induction ds with
  | nil => rfl
  | cons c ds ih =>
    have rest := ih (fun c' mem => digits c' (by simp [mem]))
      (List.filter_eq_self.mpr fun c' mem => isDigitChar_of_isDigit (digits c' (by simp [mem])))
    simp [decimalValue?_of_isDigit (digits c (by simp)), rest, bind, Except.bind, pure, Except.pure]

theorem digitValues_append_of_not_digit {pre ds post : List Char}
    (before : ∀ c ∈ pre, isDigitChar c = false) (after : ∀ c ∈ post, isDigitChar c = false) :
    digitValues (pre ++ ds ++ post) = digitValues ds := by
  have none₁ : pre.filter isDigitChar = [] := List.filter_eq_nil_iff.mpr (by simpa using before)
  have none₂ : post.filter isDigitChar = [] := List.filter_eq_nil_iff.mpr (by simpa using after)
  unfold digitValues
  rw [List.filter_append, List.filter_append, none₁, none₂, List.nil_append, List.append_nil]

theorem numberOf_toString (k : ℕ) : numberOf ((toString k).toList.map (·.toNat - 48)) = k := by
  unfold numberOf
  rw [List.foldl_map, Nat.toString_eq_repr, Nat.toList_repr]
  exact congrArg _ Nat.ofDigitChars_ten_toDigits

theorem splitLast_append_sep (sep : Char) (cs : List Char) :
    splitLast sep (cs ++ [sep]) = (cs, true, []) := by
  simp [splitLast]

theorem splitLast_of_not_mem {sep : Char} {cs : List Char} (absent : sep ∉ cs) :
    splitLast sep cs = ([], false, cs) := by
  have span : cs.reverse.span (· != sep) = (cs.reverse, []) := by
    rw [List.span_eq_takeWhile_dropWhile, List.takeWhile_eq_self_iff.mpr,
      List.dropWhile_eq_nil_iff.mpr]
    all_goals
      intro c mem
      have : c ≠ sep := fun eq => absent (eq ▸ List.mem_reverse.mp mem)
      simpa using this
  unfold splitLast
  rw [span]
  simp

def wordOfGate : Gate.OneQubit → String
  | .id => "id"
  | .h => "h"
  | .x => "x"
  | .y => "y"
  | .z => "z"
  | .s => "s"
  | .sdg => "sdg"
  | .t => "t"
  | .tdg => "tdg"

theorem gateOfWord_wordOfGate {g : Gate.OneQubit} (notId : g ≠ .id) :
    gateOfWord (wordOfGate g) = some g := by
  cases g <;> simp_all [wordOfGate, gateOfWord]

theorem wordOfGate_mem_sizingWords (g : Gate.OneQubit) : wordOfGate g ∈ sizingWords := by
  cases g <;> simp [wordOfGate, sizingWords]

theorem wordOfGate_ranged (g : Gate.OneQubit) : wordOfGate g ∉ ["cx", "sk", "csk", "N&m"] := by
  cases g <;> simp [wordOfGate]

def plainChar (c : Char) : Bool := !isBlank c && !isDigitChar c && c != ':'

/-- A command word that the readers take as it is written: not empty, and of plain characters. -/
def PlainWord (w : String) : Prop := w ≠ "" ∧ w.toList.all plainChar = true

instance (w : String) : Decidable (PlainWord w) := inferInstanceAs (Decidable (_ ∧ _))

example : PlainWord "measure" := by decide +kernel

theorem plainWord_wordOfGate (g : Gate.OneQubit) : PlainWord (wordOfGate g) := by
  cases g <;> decide +kernel

theorem PlainWord.toList_ne_nil {w : String} (plain : PlainWord w) : w.toList ≠ [] := by
  simpa using plain.1

theorem PlainWord.not_blank {w : String} (plain : PlainWord w) :
    ∀ c ∈ w.toList, isBlank c = false :=
  fun c mem => by have := List.all_eq_true.mp plain.2 c mem; simp_all [plainChar]

theorem PlainWord.not_digit {w : String} (plain : PlainWord w) :
    ∀ c ∈ w.toList, isDigitChar c = false :=
  fun c mem => by have := List.all_eq_true.mp plain.2 c mem; simp_all [plainChar]

theorem PlainWord.not_colon {w : String} (plain : PlainWord w) : ':' ∉ w.toList :=
  fun mem => by have := List.all_eq_true.mp plain.2 ':' mem; simp [plainChar] at this

def qubitCommand (w : String) (k : ℕ) : String := w ++ " q[" ++ toString k ++ "];"

theorem toList_qubitCommand (w : String) (k : ℕ) :
    (qubitCommand w k).toList =
      ((w.toList ++ [' ', 'q', '[']) ++ (toString k).toList ++ [']']) ++ [';'] := by
  simp [qubitCommand]

theorem lineWord_qubitCommand {w : String} (plain : PlainWord w) (k : ℕ) :
    lineWord (qubitCommand w k) = w := by
  unfold lineWord
  rw [toList_qubitCommand, splitLast_append_sep, List.append_assoc, List.append_assoc,
    List.cons_append, words_ofList_append plain.toList_ne_nil plain.not_blank (by decide)]
  simp

theorem operands_qubitCommand {w : String} (plain : PlainWord w)
    (ranged : w ∉ ["cx", "sk", "csk", "N&m"]) (k : ℕ) :
    operands (qubitCommand w k) = .ok ⟨k, k, -1, -1⟩ := by
  have shape : (w.toList ++ [' ', 'q', '[']) ++ (toString k).toList ++ [']'] =
      w.toList ++ ' ' :: ('q' :: '[' :: (toString k).toList ++ [']']) := by simp
  have noColon : ':' ∉ (w.toList ++ [' ', 'q', '[']) ++ (toString k).toList ++ [']'] := by
    intro mem
    simp only [List.mem_append, List.mem_cons, List.mem_nil_iff, or_false] at mem
    rcases mem with ((inWord | symbol) | digit) | symbol
    · exact plain.not_colon inWord
    · simp at symbol
    · have := toNat_of_isDigit (isDigit_of_mem_toString digit)
      simp at this
    · simp at symbol
  have digits : digitValues ((w.toList ++ [' ', 'q', '[']) ++ (toString k).toList ++ [']']) =
      .ok ((toString k).toList.map (·.toNat - 48)) := by
    rw [digitValues_append_of_not_digit, digitValues_of_digits fun c => isDigit_of_mem_toString]
    · intro c mem
      rcases List.mem_append.mp mem with inWord | symbol
      · exact plain.not_digit c inWord
      · simp only [List.mem_cons, List.mem_nil_iff, or_false] at symbol
        rcases symbol with rfl | rfl | rfl <;> decide +kernel
    · intro c mem
      rw [List.mem_singleton.mp mem]
      decide +kernel
  unfold operands commandWord
  rw [toList_qubitCommand, splitLast_append_sep, shape,
    words_ofList_append plain.toList_ne_nil plain.not_blank (by decide), ← shape]
  simp only [bind, Except.bind, String.ofList_toList]
  split
  case h_1 | h_2 | h_3 | h_4 => simp at ranged
  case h_5 =>
    unfold rangeOperands rangeOf
    rw [splitLast_of_not_mem noColon]
    simp only [bind, Except.bind, digits, numberOf_toString, needBound]
    rfl

theorem qubitCommand_no_break {w : String} (plain : PlainWord w) (k : ℕ) :
    ∀ c ∈ (qubitCommand w k).toList, isFileLineBreak c = false := by
  intro c mem
  rw [toList_qubitCommand] at mem
  simp only [List.mem_append, List.mem_cons, List.mem_nil_iff, or_false] at mem
  rcases mem with (((inWord | symbol) | digit) | symbol) | symbol
  · have := plain.not_blank c inWord
    cases h : isFileLineBreak c
    · rfl
    · rw [isBlank_of_isFileLineBreak h] at this
      cases this
  · rcases symbol with rfl | rfl | rfl <;> decide
  · have := toNat_of_isDigit (isDigit_of_mem_toString digit)
    simp only [isFileLineBreak, Bool.or_eq_false_iff, beq_eq_false_iff_ne]
    constructor <;> rintro rfl <;> simp at this
  · rw [symbol]
    decide
  · rw [symbol]
    decide

end Qubits.Script

namespace Qubits.Circuit

open Text Script

def numberCommand (w : String) (k : ℕ) : String := w ++ " " ++ toString k

theorem words_numberCommand {w : String} (plain : PlainWord w) (k : ℕ) :
    words (trimBlank (numberCommand w k)) = [w, toString k] := by
  have digits : ∀ c ∈ (toString k).toList, isBlank c = false :=
    fun c mem => isBlank_of_isDigit (isDigit_of_mem_toString mem)
  have text : (numberCommand w k).toList = w.toList ++ ' ' :: (toString k).toList := by
    simp [numberCommand]
  have nonempty : (toString k).toList ≠ [] := by
    simp [Nat.toString_eq_repr, Nat.toList_repr, Nat.toDigits_ne_nil]
  have trimmed : trimBlank (numberCommand w k) = numberCommand w k := by
    apply trimBlank_of_ends
    · rw [text]
      obtain ⟨c, cs, first⟩ := List.exists_cons_of_ne_nil plain.toList_ne_nil
      simp only [first, List.cons_append, List.head?_cons, Option.mem_def, Option.some.injEq]
      rintro _ rfl
      exact plain.not_blank c (by simp [first])
    · rw [text, ← List.singleton_append, ← List.append_assoc,
        List.getLast?_append_of_ne_nil _ nonempty]
      exact fun c mem => digits c (List.mem_of_getLast? mem)
  rw [trimmed, ← String.ofList_toList (s := numberCommand w k), text,
    words_ofList_append plain.toList_ne_nil plain.not_blank (by decide),
    words_ofList_word nonempty digits, String.ofList_toList, String.ofList_toList]

end Qubits.Circuit
