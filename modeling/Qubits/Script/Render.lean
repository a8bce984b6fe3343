import Qubits.Script.Line
import Qubits.Numeric.Fixed
import Qubits.Bits

/-!
The text of the lines a run prints, for doubles. Counts and qubits are written in decimal, real
numbers in their shortest round-trip form, and amplitudes as real part and signed imaginary part
followed by `j`, with three decimals in the state listings and three significant digits in the
final listing. A state listing shows each nonzero amplitude in parentheses before its basis
label, the terms joined by `+ `.
-/

namespace Qubits.Script

open Decimal

def fixedComplex (places : Nat) (z : DComplex) : String :=
  fixedText .negativeOnly places z.re ++ fixedText .always places z.im ++ "j"

def scientificComplex (digits : Nat) (z : DComplex) : String :=
  scientificText .negativeOnly digits z.re ++ scientificText .always digits z.im ++ "j"

def Numeral.text : Numeral → String
  | .int n => toString n
  | .real x => shortestText x

def replaceAll (pattern replacement : List Char) : List Char → List Char
  | [] => []
  | c :: rest =>
    if pattern ≠ [] ∧ pattern.isPrefixOf (c :: rest) then
      replacement ++ replaceAll pattern replacement ((c :: rest).drop pattern.length)
    else c :: replaceAll pattern replacement rest
termination_by cs => cs.length
decreasing_by
  all_goals simp_wf
  · have : pattern.length ≠ 0 := by simp_all
    omega

/-- The listing of the nonzero entries of a state on an `n`-qubit register: each entry as its
amplitude in parentheses and its label, the entries joined by `+ `, and `+ -` then written `- `. -/
def listing (n : Nat) (entries : List (Nat × DComplex)) : String :=
  let terms := entries.map fun (k, x) => "(" ++ fixedComplex 3 x ++ ")|" ++ Bits.label n k ++ "> "
  String.ofList (replaceAll "+ -".toList "- ".toList (String.intercalate "+ " terms).toList)

def Line.text : Line Float DComplex → String
  | .plotSetting k => "plot = " ++ toString k ++ "\n"
  | .printoutSetting k => "printout = " ++ toString k ++ "\n"
  | .inverseThreshold k => "Inverse_P_threshold = " ++ toString k ++ "\n"
  | .threshold p => "P_threshold = " ++ shortestText p ++ "\n"
  | .qubitCount n => "\nNumber of qubits:  " ++ toString n ++ "\n"
  | .initialState n entries => "Initial state: |psi> = " ++ listing n entries ++ "\n\n"
  | .hadamardOn q => "Hadamard gate applied to qubit  " ++ toString q ++ "\n"
  | .hadamardUpTo last => "Hadamard gate applied to qubits from 0 to " ++ toString last ++ "\n"
  | .rootPhaseOn q k => "Gate sk on qubit " ++ toString q ++ "  with k = " ++ k.text ++ "\n"
  | .controlledNotOn c t =>
    "Gate cx on control qubit " ++ toString c ++ "  and target qubit " ++ toString t ++ "\n"
  | .controlledPhaseOn c t k =>
    "Gate csk on control qubit " ++ toString c ++ "  and target qubit " ++ toString t ++
      "  with k = " ++ k.text ++ "\n"
  | .signFlip index => "Sign flip on index " ++ toString index ++ "\n"
  | .gateOn word q => "Gate " ++ word ++ " on qubit " ++ toString q ++ "\n"
  | .stateAfter n entries => "  resulted in state |psi> = " ++ listing n entries ++ "\n\n"
  | .fourierStart inverse i f =>
    "Starting " ++ (if inverse then "IQFT" else "QFT") ++ " from qbit " ++ toString i ++
      " to qbit " ++ toString f ++ "\n"
  | .fourierEnd inverse => "Ending " ++ (if inverse then "IQFT" else "QFT") ++ " ..\n"
  | .measureOn q => "Measure qubit " ++ toString q ++ "\n"
  | .finalHeader p => "\nFinal basis states with P > " ++ shortestText p ++ "\n"
  | .finalEntry n k p x =>
    "P(|" ++ Bits.label n k ++ ">) = " ++ scientificText .negativeOnly 2 p ++ "\t Amplitude: " ++
      scientificComplex 2 x ++ "\n"
  | .measuredQubits count qubits =>
    (if count > 1 then "\nProbabilities for measurements of qubits: "
      else "\nProbability for measurement of qubit: ") ++
      String.join (qubits.map fun q => toString q ++ " ")
  | .outcomeProbability label p => "\nP(" ++ label ++ ") = " ++ shortestText p ++ "\n"
  | .outcomeState terms =>
    "|psi> = " ++
      String.intercalate " + "
        (terms.map fun (x, label) => "(" ++ fixedComplex 3 x ++ ")|" ++ label ++ ">") ++
      "\n"
  | .plotting => "Plotting ..\n"
  | .done => "Done\n"

def printedText (lines : Array (Line Float DComplex)) : String :=
  String.join (lines.toList.map Line.text)

end Qubits.Script
