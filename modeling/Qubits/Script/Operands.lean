import Qubits.Fault
import Qubits.Text.IntLiteral

/-!
# The operands of a command

A command is a line of the circuit language, `word operands;`. Its operands are read from the
text before its last `;` as four integers whose meaning depends on the command word:

* `cx` reads a control range and a target range, `controls, target;`, where either side may be a
  single qubit or a range `i:j`;
* `sk` reads a qubit range and, after the last `,`, the phase exponent `k`;
* `csk` reads a control qubit, a target qubit and the exponent `k`, and refuses ranges;
* `N&m` reads the modulus and the base of a modular power;
* every other word reads one qubit or one range `i:j`.

A qubit number is read off the decimal digits among the characters of a part, wherever they
stand: a range bound uses exactly one or two of them (`10·d₁ + d₂`), and a bound with any other
number of digits has no value. Reading such a bound is a fault that names it. A part without a
range, and the exponent of `sk`, take all of their digits. The exponent of `csk` is instead the
whole text after the last `,` read as an integer.
-/

namespace Qubits.Script

open Text

/-- The four integers a command's operands denote. For `cx` they are the first and last control
and the first and last target; the other words use them as listed in the module header, with `-1`
where they have nothing to say. -/
structure Operands where
  controlFrom : Int
  controlTo : Int
  targetFrom : Int
  targetTo : Int
  deriving Repr, DecidableEq, Inhabited

/-- The text before the last `sep`, whether there is one, and the text after it. Without `sep`
the whole text counts as the part after it. -/
def splitLast (sep : Char) (cs : List Char) : List Char × Bool × List Char :=
  match cs.reverse.span (· != sep) with
  | (after, _ :: before) => (before.reverse, true, after.reverse)
  | (after, []) => ([], false, after.reverse)

/-- The values of the digit characters of a text, in order. A digit character that is not a
decimal digit (a superscript, a circled number) has no value, and reading it is a fault. -/
def digitValues (cs : List Char) : Except Fault (List Nat) :=
  (cs.filter isDigitChar).mapM fun c =>
    match decimalValue? c with
    | some d => .ok d
    | none => .error (.invalidInt (String.singleton c))

def boundOf : List Nat → Option Int
  | [d] => some d
  | [d₁, d₂] => some (10 * d₁ + d₂)
  | _ => none

def numberOf (ds : List Nat) : Int :=
  Int.ofNat (ds.foldl (fun n d => 10 * n + d) 0)

def needBound (name : String) : Option Int → Except Fault Int
  | some v => .ok v
  | none => .error (.unboundLocal name)

/-- The bounds of a range `i:j`, or of a single qubit `i` that stands for `i:i`. The range is
read when the text has a `:`, its bounds from the digits on either side of the last one; a single
qubit is read from all the digits with `single`, and `name` names it when it has no value. -/
def rangeOf (name : String) (single : List Nat → Option Int) (cs : List Char) :
    Except Fault (Option Int × Option Int) := do
  match splitLast ':' cs with
  | (before, true, after) =>
    let i := boundOf (← digitValues before)
    let j := boundOf (← digitValues after)
    pure (i, j)
  | (_, false, _) =>
    let i ← needBound name (single (← digitValues cs))
    pure (some i, some i)

/-- The operands of a command with one qubit or range: every word but `cx`, `sk`, `csk` and
`N&m`. A range `i:j` gives `(i, j, -1, -1)`; a single qubit `i` gives `(i, i, -1, -1)`, with `i`
written by all the digits. -/
def rangeOperands (cs : List Char) : Except Fault Operands := do
  let (i, j) ← rangeOf "qbit_i" (fun ds => some (numberOf ds)) cs
  pure ⟨← needBound "qbit_i" i, ← needBound "qbit_f" j, -1, -1⟩

def phaseOperands (cs : List Char) : Except Fault Operands := do
  let (qubits, _, exponent) := splitLast ',' cs
  let (i, j) ← rangeOf "qbit_i" boundOf qubits
  let k := numberOf (← digitValues exponent)
  pure ⟨← needBound "qbit_i" i, ← needBound "qbit_f" j, k, -1⟩

def controlledOperands (cs : List Char) : Except Fault Operands := do
  let (controls, _, targets) := splitLast ',' cs
  let (c, c') ← rangeOf "qbit_c_i" boundOf controls
  let (t, t') ← rangeOf "qbit" boundOf targets
  pure ⟨← needBound "qbit_c_i" c, ← needBound "qbit_c_f" c', ← needBound "qbit_t_i" t,
    ← needBound "qbit_t_f" t'⟩

def controlledRangeMessage : String :=
  "The csk gate does not allow expansion of range of qubits"

def intFault (text : List Char) : IntReadError → Fault
  | .invalid => .invalidInt (String.ofList text)
  | .tooManyDigits count => .intTooLong count

/-- The operands of `csk control, target, k;`: `(control, target, k, -1)`, where `k` is the whole
text after the last `,` read as an integer. -/
def controlledPhaseOperands (cs : List Char) : Except Fault Operands := do
  if cs.contains ':' then throw (.exit controlledRangeMessage)
  let (qubits, _, exponent) := splitLast ',' cs
  let (control, _, target) := splitLast ',' qubits
  let c := boundOf (← digitValues control)
  let t := boundOf (← digitValues target)
  let _ ← digitValues exponent
  let c ← needBound "qbit_c" c
  let t ← needBound "qbit_t" t
  match readInt (String.ofList exponent) with
  | .ok k => pure ⟨c, t, k, -1⟩
  | .error e => throw (intFault exponent e)

def modularOperands (cs : List Char) : Except Fault Operands := do
  let (modulus, _, base) := splitLast ',' cs
  let n := numberOf (← digitValues modulus)
  let m := numberOf (← digitValues base)
  pure ⟨n, m, -1, -1⟩

def commandWord (command : String) : Except Fault String :=
  match words (String.ofList (splitLast ';' command.toList).1) with
  | w :: _ => .ok w
  | [] => .error .noCommandWord

def operands (command : String) : Except Fault Operands := do
  let word ← commandWord command
  let cs := (splitLast ';' command.toList).1
  match word with
  | "cx" => controlledOperands cs
  | "sk" => phaseOperands cs
  | "csk" => controlledPhaseOperands cs
  | "N&m" => modularOperands cs
  | _ => rangeOperands cs

end Qubits.Script
