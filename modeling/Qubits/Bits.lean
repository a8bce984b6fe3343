import Qubits.Fault

/-!
Single bits of integers of any sign, in two's complement: a negative integer `v` has the bits of
`-v - 1` inverted. Setting or clearing bit `b` changes that bit alone. A bit position is an
integer, and a negative one is a fault.
-/

namespace Qubits.Bits

def setNat (w b : Nat) : Nat := if w.testBit b then w else w + Nat.pow 2 b

def clearNat (w b : Nat) : Nat := if w.testBit b then w - Nat.pow 2 b else w

def set (v : Int) (b : Nat) : Int :=
  match v with
  | .ofNat w => .ofNat (setNat w b)
  | .negSucc w => .negSucc (clearNat w b)

def clear (v : Int) (b : Nat) : Int :=
  match v with
  | .ofNat w => .ofNat (clearNat w b)
  | .negSucc w => .negSucc (setNat w b)

def test (v : Int) (b : Nat) : Bool :=
  match v with
  | .ofNat w => w.testBit b
  | .negSucc w => !w.testBit b

def position (b : Int) : Except Fault Nat :=
  if b < 0 then .error .negativeShift else .ok b.toNat

def setAt (v b : Int) : Except Fault Int := return set v (← position b)

def clearAt (v b : Int) : Except Fault Int := return clear v (← position b)

/-- The `n`-bit string of `j`, most significant bit first, padded with zeros; a number that
needs more than `n` bits is written in full. -/
def binary (n j : Nat) : String :=
  let ds := Nat.toDigits 2 j
  String.ofList (List.replicate (n - ds.length) '0' ++ ds)

/-- The label of basis state `j` of an `n`-qubit register: its bits with qubit 0 first. -/
def label (n j : Nat) : String := String.ofList (binary n j).toList.reverse

def readBinary (s : String) : Nat := Nat.ofDigitChars 2 s.toList 0

def reverseBits (n j : Nat) : Nat :=
  (List.range n).foldl (fun acc m => if j.testBit m then acc + Nat.pow 2 (n - 1 - m) else acc) 0

end Qubits.Bits
