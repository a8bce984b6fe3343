import Qubits.Text.Blank

/-!
Digit characters of Unicode 14.0, and reading a whole text as a decimal integer. A decimal digit
(general category Nd) has a value 0 to 9 and belongs to a block of ten consecutive code points
starting at its zero; other digit characters (superscripts, circled digits and the like) count as
digits but have no decimal value. The integer reader accepts blanks around the number, one sign,
and single underscores between digits; any decimal digit counts with its value, a blank outside
ASCII counts as a space, and a number of more than 4300 digits is refused on its own account.
-/

namespace Qubits.Text

def decimalZeros : Array Nat := #[
  0x30, 0x660, 0x6F0, 0x7C0, 0x966, 0x9E6, 0xA66, 0xAE6,
  0xB66, 0xBE6, 0xC66, 0xCE6, 0xD66, 0xDE6, 0xE50, 0xED0,
  0xF20, 0x1040, 0x1090, 0x17E0, 0x1810, 0x1946, 0x19D0, 0x1A80,
  0x1A90, 0x1B50, 0x1BB0, 0x1C40, 0x1C50, 0xA620, 0xA8D0, 0xA900,
  0xA9D0, 0xA9F0, 0xAA50, 0xABF0, 0xFF10, 0x104A0, 0x10D30, 0x11066,
  0x110F0, 0x11136, 0x111D0, 0x112F0, 0x11450, 0x114D0, 0x11650, 0x116C0,
  0x11730, 0x118E0, 0x11950, 0x11C50, 0x11D50, 0x11DA0, 0x16A60, 0x16AC0,
  0x16B50, 0x1D7CE, 0x1D7D8, 0x1D7E2, 0x1D7EC, 0x1D7F6, 0x1E140, 0x1E2F0,
  0x1E950, 0x1FBF0]

def otherDigitRanges : Array (Nat × Nat) := #[
  (0xB2, 0xB3),
  (0xB9, 0xB9),
  (0x1369, 0x1371),
  (0x19DA, 0x19DA),
  (0x2070, 0x2070),
  (0x2074, 0x2079),
  (0x2080, 0x2089),
  (0x2460, 0x2468),
  (0x2474, 0x247C),
  (0x2488, 0x2490),
  (0x24EA, 0x24EA),
  (0x24F5, 0x24FD),
  (0x24FF, 0x24FF),
  (0x2776, 0x277E),
  (0x2780, 0x2788),
  (0x278A, 0x2792),
  (0x10A40, 0x10A43),
  (0x10E60, 0x10E68),
  (0x11052, 0x1105A),
  (0x1F100, 0x1F10A)]

def decimalValue? (c : Char) : Option Nat :=
  let n := c.toNat
  (decimalZeros.find? fun z => z ≤ n ∧ n < z + 10).map (n - ·)

def isDigitChar (c : Char) : Bool :=
  (decimalValue? c).isSome || otherDigitRanges.any fun (lo, hi) => lo ≤ c.toNat ∧ c.toNat ≤ hi

inductive IntReadError where
  | invalid
  | tooManyDigits (count : Nat)
  deriving Repr, DecidableEq

def maxIntDigits : Nat := 4300

/-- Map a character to the ASCII text the reader works on: ASCII stays, other blanks become a
space, other decimal digits become their ASCII digit, anything else becomes `?`. -/
def asciiForm (c : Char) : Char :=
  if c.toNat < 127 then c
  else if isBlank c then ' '
  else match decimalValue? c with
    | some d => Char.ofNat (48 + d)
    | none => '?'

def asciiDigit? (c : Char) : Option Nat :=
  if '0' ≤ c && c ≤ '9' then some (c.toNat - 48) else none

/-- Read digits and single underscores between them. Returns the value, the number of digits and
the rest of the text; `afterUnderscore` says whether the last character read was an underscore. -/
def readDigits : List Char → Nat → Nat → Bool → Except IntReadError (Nat × Nat × List Char)
  | [], value, count, afterUnderscore =>
    if afterUnderscore then .error .invalid else .ok (value, count, [])
  | c :: rest, value, count, afterUnderscore =>
    match asciiDigit? c with
    | some d => readDigits rest (10 * value + d) (count + 1) false
    | none =>
      if c == '_' then
        if afterUnderscore then .error .invalid else readDigits rest value count true
      else if afterUnderscore then .error .invalid
      else .ok (value, count, c :: rest)

def readInt (s : String) : Except IntReadError Int := do
  let cs := (s.toList.map asciiForm).dropWhile isAsciiBlank
  let (negative, cs) := match cs with
    | '-' :: rest => (true, rest)
    | '+' :: rest => (false, rest)
    | _ => (false, cs)
  if cs.head? == some '_' then throw .invalid
  let (value, count, rest) ← readDigits cs 0 0 false
  if count > maxIntDigits then throw (.tooManyDigits count)
  if count == 0 then throw .invalid
  if !(rest.dropWhile isAsciiBlank).isEmpty then throw .invalid
  return if negative then -(value : Int) else value

end Qubits.Text
