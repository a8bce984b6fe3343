import Qubits.Script.Step
import Qubits.Script.Report
import Qubits.Script.Operands
import Qubits.Random.Twister

/-!
# Running a program

A program is a text of commands, one per line. It runs in two passes over its lines.

The first pass, `survey`, sizes the register and reads the settings: every gate and measurement
makes the register large enough for the qubits it names, and the setting words print and record
their values (`verbose`, `plot`, `printout`, `Inverse_P_threshold`) or choose how the register
starts (`init` for random amplitudes, `N&m` for a modular power).

Between the passes, `prepare` prints the register size, allocates the register, fills it as
chosen and prints the initial state.

The second pass, `perform`, applies the gates in order and marks measured qubits. A gate over a
range of qubits runs once per qubit, upwards or downwards as the range is written.

Last, `conclude` prints the final listing, the measurement report and the plot notice as the
settings ask. A fault at any point stops the run, and what was printed and computed up to that
point remains in the session.
-/

namespace Qubits.Script

open StateVector

variable {R K : Type} [RealScalar R] [Amplitude R K]

/-! ## Command words -/

def lineWord (line : String) : String :=
  (Text.words (String.ofList (splitLast ';' line.toList).1)).headD ""

def sizingWords : List String :=
  ["id", "h", "x", "y", "z", "s", "sdg", "t", "tdg", "measure", "QFT", "IQFT"]

def settingWords : List String :=
  ["init", "verbose", "plot", "printout", "Inverse_P_threshold", "N&m"]

def rangeWords : List String :=
  ["id", "h", "hn", "x", "y", "z", "s", "sdg", "t", "tdg", "measure"]

def gateOfWord : String → Option Gate.OneQubit
  | "h" => some .h
  | "x" => some .x
  | "y" => some .y
  | "z" => some .z
  | "s" => some .s
  | "sdg" => some .sdg
  | "t" => some .t
  | "tdg" => some .tdg
  | _ => none

def qubitRange (i f : Int) : List Int :=
  if f ≥ i then (List.range (f - i + 1).toNat).map fun (d : Nat) => i + d
  else (List.range (i - f + 1).toNat).map fun (d : Nat) => i - d

/-! ## Shared steps -/

def operandsOf (line : String) : Run R K Operands := ofExcept (operands line)

def reach (q : Int) : Run R K Unit :=
  modify fun s => { s with size := max s.size (q + 1).toNat }

def realOfInt (n : Int) : Run R K R :=
  if RealScalar.intFits (R := R) n then pure (RealScalar.ofInt n) else fail .intTooLargeForFloat

def checkPrintable (n : Int) : Run R K Unit :=
  if n.natAbs ≥ Nat.pow 10 Text.maxIntDigits then fail .intTooLongToPrint else pure ()

/-! ## The first pass -/

def readSetting (word : String) (o : Operands) : Run R K Unit := do
  let k := o.controlFrom
  match word with
  | "init" => modify fun s => { s with start := .random o.controlFrom o.controlTo }
  | "verbose" => modify fun s => { s with verbose := k }
  | "plot" =>
    modify fun s => { s with plot := k }
    checkPrintable k
    emit (.plotSetting k)
  | "printout" =>
    modify fun s => { s with printout := k }
    checkPrintable k
    emit (.printoutSetting k)
  | "Inverse_P_threshold" =>
    if k > 0 then
      let d ← realOfInt k
      modify fun s => { s with threshold := RealScalar.ofFloat 1.0 / d }
    checkPrintable k
    emit (.inverseThreshold k)
    emit (.threshold (← get).threshold)
  | _ =>
    let modulus ← realOfInt o.controlFrom
    let base ← realOfInt o.controlTo
    modify fun s => { s with start := .modular modulus base }

def survey (line : String) : Run R K Unit := do
  let word := lineWord line
  if sizingWords.contains word then
    let o ← operandsOf line
    reach o.controlFrom
    reach o.controlTo
  else if settingWords.contains word then
    readSetting word (← operandsOf line)
  else if word == "sk" then
    let o ← operandsOf line
    reach o.controlTo
    reach o.controlFrom
  else if word == "cx" then
    let o ← operandsOf line
    reach o.controlFrom
    reach o.controlTo
    reach o.targetFrom
    reach o.targetTo
  else if word == "csk" then
    let o ← operandsOf line
    reach o.controlFrom
    reach o.controlTo

/-! ## The initial state -/

/-- Set the entries `first … last` of a vector to random amplitudes, each drawing its real part
and then its imaginary part uniformly from `[-1, 1)`. -/
def randomFill (first last : Int) (g : Random.Twister) (a : Array K) : Array K :=
  ((List.range a.size).foldl (fun (acc : Array K × Random.Twister) (k : Nat) =>
      if first ≤ k ∧ k ≤ last then
        let (re, g) := acc.2.nextSigned
        let (im, g) := g.nextSigned
        let x := Amplitude.ofReal (RealScalar.ofFloat re) +
          Amplitude.I * Amplitude.ofReal (RealScalar.ofFloat im)
        (acc.1.setIfInBounds k x, g)
      else acc) (a, g)).1

/-- The amplitude `base ^ k mod modulus` of basis state `k`; a power beyond the largest double and
a zero modulus are faults. -/
def modularEntry (modulus base : R) (k : Nat) : Except Fault K := do
  let p ← match RealScalar.powNat? base k with
    | some p => pure p
    | none => throw .powerOverflow
  if RealScalar.isZero modulus then throw .floatModulo
  pure (Amplitude.ofReal (RealScalar.floorRem p modulus))

/-- Set every entry of a vector in order from `value`, stopping at the first fault; the entries
set before it stay set. -/
def fillUntilFault (value : Nat → Except Fault K) (a : Array K) : Array K × Option Fault :=
  (List.range a.size).foldl (fun (acc : Array K × Option Fault) k =>
    match acc with
    | (a, none) =>
      match value k with
      | .ok x => (a.setIfInBounds k x, none)
      | .error f => (a, some f)
    | stopped => stopped) (a, none)

def squaredNorm (a : Array K) : R :=
  a.foldl (fun acc x => acc + RealScalar.powTwo (Amplitude.abs x)) (RealScalar.ofInt 0)

def normalize (a : Array K) : Array K :=
  let norm := RealScalar.sqrt (squaredNorm a)
  a.map fun x => Amplitude.divReal x norm

/-- Print the register size, allocate the register, fill it as the settings chose and print it.
A random start draws from the generator `g`. -/
def prepare (g : Random.Twister) : Run R K Unit := do
  let s ← get
  let n := s.size
  checkPrintable n
  emit (.qubitCount n)
  let size ← ofExcept (registerSize n)
  let a : Array K := zeros size
  modify fun s => { s with state := some a, measured := Array.replicate n false }
  match s.start with
  | .ground =>
    let a := a.setIfInBounds 0 (Amplitude.ofReal (RealScalar.ofInt 1))
    setState a
    emit (.initialState n (← ofExcept (nonzeroEntries 0 a)))
  | .random first last =>
    let a := normalize (randomFill first last g a)
    modify fun s => { s with state := some a, report := some a }
    emit (.initialState n (← ofExcept (nonzeroEntries n a)))
  | .modular modulus base =>
    let (a, stop) := fillUntilFault (modularEntry modulus base) a
    setState a
    if let some f := stop then fail f
    let a := normalize a
    modify fun s => { s with state := some a, report := some a }
    emit (.initialState n (← ofExcept (nonzeroEntries n a)))

/-! ## The second pass -/

def gateOverRange (word : String) (g : Gate.OneQubit) (i f : Int) : Run R K Unit := do
  let n : Int := (← get).size
  for q in qubitRange i f do
    setCursor q
    let b ← oneQubitStep g n q (← currentState)
    showState word n (← get).verbose b

def measureRange (i f : Int) : Run R K Unit := do
  for q in qubitRange i f do
    setCursor q
    let s ← get
    if 0 ≤ q ∧ q < s.measured.size then
      modify fun s => { s with measured := s.measured.setIfInBounds q.toNat true }
    else fail (.indexOutOfBounds q s.measured.size)
    emit (.measureOn q)

def controlledNotOnce (c t : Int) : Run R K Unit := do
  let n : Int := (← get).size
  let b ← controlledNotStep n c t (← currentState)
  showState "cx" n (← get).verbose b

/-- The controlled NOTs of `cx`: over the controls when the target is one qubit and the controls
a proper range, over the targets when the control is one qubit, and none when both are ranges. -/
def controlledNots (o : Operands) : Run R K Unit := do
  if o.controlTo ≠ o.controlFrom ∧ o.targetFrom = o.targetTo then
    for c in qubitRange o.controlFrom o.controlTo do controlledNotOnce c o.targetFrom
  else if o.controlTo = o.controlFrom then
    for t in qubitRange o.targetFrom o.targetTo do controlledNotOnce o.controlFrom t

/-- Check that an exponent has a finite base-2 logarithm that a machine word can hold: zero and
magnitudes from `2^64` up are faults. -/
def checkLogarithm (k : Int) : Run R K Unit := do
  if k = 0 then fail .infinityToInt
  if k.natAbs ≥ Nat.pow 2 64 then fail .logOfHugeInt

def controlledPhaseOnce (o : Operands) : Run R K Unit := do
  let k := o.targetFrom
  checkLogarithm k
  let n : Int := (← get).size
  let b ← controlledPhaseStep n o.controlFrom o.controlTo (.int k) (← currentState)
  showState "csk" n (← get).verbose b

def fourierOnce (word : String) (i f : Int) : Run R K Unit := do
  let inverse := word == "IQFT"
  emit (.fourierStart inverse i f)
  let n : Int := (← get).size
  let dir : R := RealScalar.ofInt (if inverse then -1 else 1)
  let b ← fourierStep n i f dir (← currentState)
  emit (.fourierEnd inverse)
  showState word n (← get).verbose b

def phaseOverRange (i f k : Int) : Run R K Unit := do
  let n : Int := (← get).size
  for q in qubitRange i f do
    setCursor q
    let b ← rootPhaseStep n q (.int k) (← currentState)
    showState "sk" n (← get).verbose b

/-- The second pass over one line: apply its gate or mark its measured qubits. The command words
are tested one after the other; as they are distinct, at most one of them applies. The phase gate
`sk` names its exponent by its base-2 logarithm, which the numeric library provides only when
`logarithm` holds; otherwise `sk` is a fault. -/
def perform (logarithm : Bool) (line : String) : Run R K Unit := do
  let word := lineWord line
  let n : Int := (← get).size
  if rangeWords.contains word then
    let o ← operandsOf line
    let (i, f) := (o.controlFrom, o.controlTo)
    if word == "h" ∧ i = 0 ∧ f = n - 1 then
      let b ← hadamardAllStep n (← currentState)
      showState word n (← get).verbose b
    else if word == "measure" then measureRange i f
    else match gateOfWord word with
      | some g => gateOverRange word g i f
      | none => pure ()
  else if word == "sk" then
    let o ← operandsOf line
    if !logarithm then fail .missingLogarithm
    checkLogarithm o.targetFrom
    phaseOverRange o.controlFrom o.controlTo o.targetFrom
  else if word == "cx" then controlledNots (← operandsOf line)
  else if word == "csk" then controlledPhaseOnce (← operandsOf line)
  else if word == "Sign" then
    let o ← operandsOf line
    let b ← signStep o.controlFrom (← currentState)
    showState word n (← get).verbose b
  else if word == "reverse" then
    let b ← reverseStep n (← currentState)
    showState word n (← get).verbose b
  else if word == "QFT" ∨ word == "IQFT" then
    let o ← operandsOf line
    fourierOnce word o.controlFrom o.controlTo

/-! ## The end of a run -/

/-- The final reports: the listing when `printout` is 1, the measurement report when a qubit is
measured, the plot notice when `plot` is 1, and the closing line. Each report reads the state the
last gate left. -/
def conclude : Run R K Unit := do
  let s ← get
  let n : Int := s.size
  if s.printout == 1 then finalListing n (← reportState) s.threshold
  if s.measured.any id then marginalReport n (← reportState) s.measured
  if s.plot == 1 then
    emit .plotting
    let _ ← reportState
  emit .done

def firstPass (lines : List String) : Run R K Unit := do
  for line in lines do survey line

def secondPass (logarithm : Bool) (lines : List String) : Run R K Unit := do
  for line in lines do perform logarithm line

/-- Run a program: both passes over its lines, with a random start drawing from the generator
seeded by `seed`, and the `sk` gate available when `logarithm` holds. -/
def runProgram (logarithm : Bool) (seed : Int) (text : String) : Run R K Unit := do
  let lines := Text.fileLines text
  firstPass lines
  prepare (Random.Twister.seeded seed)
  secondPass logarithm lines
  conclude

end Qubits.Script
