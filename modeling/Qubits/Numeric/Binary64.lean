/-!
Doubles as exact numbers. A finite double is `(-1)^s · m · 2^e` with a natural mantissa `m`;
`decode` reads that form off the bits, and `roundRatio` goes back: it returns the double nearest
to an exact positive ratio `num / den · 2^e`, ties to the even mantissa, overflowing to infinity.
Every correctly rounded operation of the library ends in `roundRatio`; so do the exact remainders
(`truncRem`, `floorRem`). The length of a pair of doubles (`magnitude`) and the integer powers
(`powNat?`) follow the conventions of vectorised array code and of the general power function.
-/

namespace Qubits.Binary64

/-- What the bits of a double denote. A finite value is `(-1)^negative · mantissa · 2^exponent`;
its mantissa is zero for the two zeros. -/
inductive Value where
  | nan
  | infinite (negative : Bool)
  | finite (negative : Bool) (mantissa : Nat) (exponent : Int)
  deriving Repr, Inhabited

def decode (x : Float) : Value :=
  let bits := x.toBits.toNat
  let negative := bits / Nat.pow 2 63 % 2 == 1
  let field := bits / Nat.pow 2 52 % 2048
  let fraction := bits % Nat.pow 2 52
  if field == 2047 then
    if fraction == 0 then .infinite negative else .nan
  else if field == 0 then .finite negative fraction (-1074)
  else .finite negative (fraction + Nat.pow 2 52) (Int.ofNat field - 1075)

def pack (negative : Bool) (field fraction : Nat) : Float :=
  Float.ofBits
    (UInt64.ofNat ((if negative then Nat.pow 2 63 else 0) + field * Nat.pow 2 52 + fraction))

def signBit (x : Float) : Bool := x.toBits.toNat / Nat.pow 2 63 % 2 == 1

def copySign (x y : Float) : Float :=
  if signBit x == signBit y then x else -x

def signedZero (negative : Bool) : Float := pack negative 0 0

def signedInfinity (negative : Bool) : Float := pack negative 2047 0

def twoPow (k : Int) : Float := pack false (k + 1023).toNat 0

def shiftBy (a : Nat) (k : Int) : Nat :=
  if 0 ≤ k then a * Nat.pow 2 k.toNat else a / Nat.pow 2 (-k).toNat

def floorLog2Ratio (num den : Nat) : Int :=
  let guess : Int := Int.ofNat num.log2 - Int.ofNat den.log2
  -- `num / den` lies in `[2^(guess-1), 2^(guess+1))`; one comparison settles which half.
  let below : Bool :=
    if 0 ≤ guess then num < den * Nat.pow 2 guess.toNat else num * Nat.pow 2 (-guess).toNat < den
  if below then guess - 1 else guess

def roundHalfEven (q r d : Nat) : Nat :=
  if 2 * r > d ∨ (2 * r = d ∧ q % 2 = 1) then q + 1 else q

/-- The double nearest to `num / den · 2^e`, with the given sign: ties go to the even mantissa,
and a magnitude that rounds past the largest finite double gives infinity. `den` is positive. -/
def roundRatio (negative : Bool) (num den : Nat) (e : Int) : Float :=
  if num = 0 ∨ den = 0 then signedZero negative else
  -- the value lies in `[2^b, 2^(b+1))`; its last mantissa bit has weight `2^unit`
  let b := floorLog2Ratio num den + e
  let unit := max (b - 52) (-1074)
  let shift := e - unit
  let n := if 0 ≤ shift then num * Nat.pow 2 shift.toNat else num
  let d := if 0 ≤ shift then den else den * Nat.pow 2 (-shift).toNat
  let m := roundHalfEven (n / d) (n % d) d
  -- rounding up may carry into the next binade
  let (m, unit) := if m = Nat.pow 2 53 then (Nat.pow 2 52, unit + 1) else (m, unit)
  if m < Nat.pow 2 52 then pack negative 0 m
  else
    let field := unit + 1075
    if field ≥ 2047 then signedInfinity negative
    else pack negative field.toNat (m - Nat.pow 2 52)

def ofInt (n : Int) : Float :=
  roundRatio (n < 0) n.natAbs 1 0

/-- `a · b + c` rounded once: the exact value of the product plus the addend, rounded to the
nearest double. An exact zero takes the sign that the sum of two zeros takes: negative only when
both the product and the addend are negative zeros. A NaN or infinite input gives the rounded
value of `a * b + c`, which is then exact. -/
def fusedMulAdd (a b c : Float) : Float :=
  match decode a, decode b, decode c with
  | .finite sa ma ea, .finite sb mb eb, .finite sc mc ec =>
    let sp := sa != sb
    let ep := ea + eb
    let low := min ep ec
    let p : Int := (if sp then -1 else 1) * Int.ofNat (shiftBy (ma * mb) (ep - low))
    let q : Int := (if sc then -1 else 1) * Int.ofNat (shiftBy mc (ec - low))
    let sum := p + q
    if sum = 0 then signedZero (ma * mb = 0 ∧ mc = 0 ∧ sp ∧ sc)
    else roundRatio (sum < 0) sum.natAbs 1 low
  | _, _, _ => a * b + c

def intFits (n : Int) : Bool :=
  (ofInt n).isFinite

def magnitude (x y : Float) : Float :=
  let x := x.abs
  let y := y.abs
  if x.isInf || y.isInf then signedInfinity false
  else if x.isNaN || y.isNaN then x + y
  else
    let larger := if x < y then y else x
    let smaller := if x < y then x else y
    let ratio := if larger == 0.0 then 0.0 else smaller / larger
    Float.sqrt (fusedMulAdd ratio ratio 1.0) * larger

/-- The truncated remainder `x - trunc(x / y) · y`, exact, with the sign of `x`. It is NaN when
`x` is infinite, `y` is zero or either is NaN, and `x` when `y` is infinite. -/
def truncRem (x y : Float) : Float :=
  match decode x, decode y with
  | .finite sx mx ex, .finite _ my ey =>
    if my = 0 then 0.0 / 0.0
    else if mx = 0 then x
    else
      let e0 := min ex ey
      let a := mx * Nat.pow 2 (ex - e0).toNat
      let b := my * Nat.pow 2 (ey - e0).toNat
      if a % b = 0 then signedZero sx else roundRatio sx (a % b) 1 e0
  | .finite _ _ _, .infinite _ => x
  | _, _ => 0.0 / 0.0

/-- The floored remainder: the truncated remainder moved to the sign of the divisor, and a zero
remainder given the divisor's sign. The divisor is nonzero. -/
def floorRem (x y : Float) : Float :=
  let m := truncRem x y
  if m != 0.0 then
    if (y < 0.0) != (m < 0.0) then m + y else m
  else copySign 0.0 y

def isOdd (k : Nat) : Bool := k % 2 == 1

/-- `x ^ k` for a natural exponent, or `none` when the result is beyond the largest double:
`x ^ 0 = 1` for every `x`, a NaN base gives NaN, powers of the infinities and of the zeros keep
the sign for odd `k`, `(±1) ^ k = ±1`, and otherwise the general power function decides. -/
def powNat? (x : Float) (k : Nat) : Option Float :=
  if k = 0 then some 1.0
  else if x.isNaN then some x
  else if x.isInf then some (if isOdd k then x else x.abs)
  else if x == 0.0 then some (if isOdd k then x else 0.0)
  else
    let negate := x < 0.0 && isOdd k
    let base := x.abs
    if base == 1.0 then some (if negate then -1.0 else 1.0)
    else
      let r := Float.pow base (ofInt k)
      if r.isInf then none else some (if negate then -r else r)

end Qubits.Binary64
