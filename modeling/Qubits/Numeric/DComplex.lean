import Qubits.Numeric.Binary64

/-!
Complex numbers stored as two doubles, with the textbook formulas evaluated in a fixed order:
the product `(a·c - b·d, a·d + b·c)`, the sum and the negation componentwise. Division comes in
the two variants of Smith's method that array and scalar code use (one multiplies by a reciprocal,
the other divides), and the exponential is `e^re · (cos im, sin im)` with `sin x = x` for `x`
below the least normal double.
-/

namespace Qubits

structure DComplex where
  re : Float
  im : Float
  deriving Inhabited

namespace DComplex

def ofReal (x : Float) : DComplex := ⟨x, 0.0⟩

def I : DComplex := ⟨0.0, 1.0⟩

def add (a b : DComplex) : DComplex := ⟨a.re + b.re, a.im + b.im⟩

def sub (a b : DComplex) : DComplex := ⟨a.re - b.re, a.im - b.im⟩

def mul (a b : DComplex) : DComplex := ⟨a.re * b.re - a.im * b.im, a.re * b.im + a.im * b.re⟩

def neg (a : DComplex) : DComplex := ⟨-a.re, -a.im⟩

instance : Add DComplex := ⟨add⟩
instance : Sub DComplex := ⟨sub⟩
instance : Mul DComplex := ⟨mul⟩
instance : Neg DComplex := ⟨neg⟩

def isZero (a : DComplex) : Bool := a.re == 0.0 && a.im == 0.0

def abs (a : DComplex) : Float := Binary64.magnitude a.re a.im

/-- Division by Smith's method through the reciprocal of the scaled divisor: with `|c| ≥ |d|`,
`r = d / c`, `s = 1 / (c + d·r)` and the quotient `((a + b·r)·s, (b - a·r)·s)`. A zero divisor
divides each part by `+0`. -/
def divScaled (x y : DComplex) : DComplex :=
  let (a, b, c, d) := (x.re, x.im, y.re, y.im)
  if c.abs ≥ d.abs then
    if c.abs == 0.0 && d.abs == 0.0 then ⟨a / c.abs, b / c.abs⟩
    else
      let r := d / c
      let s := 1.0 / (c + d * r)
      ⟨(a + b * r) * s, (b - a * r) * s⟩
  else
    let r := c / d
    let s := 1.0 / (d + c * r)
    ⟨(a * r + b) * s, (b * r - a) * s⟩

def divReal (x : DComplex) (s : Float) : DComplex := divScaled x (ofReal s)

/-- Division by Smith's method dividing by the scaled divisor: with `|c| ≥ |d|`, `r = d / c`,
`t = c + d·r` and the quotient `((a + b·r) / t, (b - a·r) / t)`. A zero divisor has no quotient;
a NaN in the divisor that decides neither branch gives NaN parts. -/
def quot (x y : DComplex) : Option DComplex :=
  let (a, b, c, d) := (x.re, x.im, y.re, y.im)
  if c.abs ≥ d.abs then
    if c.abs == 0.0 then none
    else
      let r := d / c
      let t := c + d * r
      some ⟨(a + b * r) / t, (b - a * r) / t⟩
  else if d.abs ≥ c.abs then
    let r := c / d
    let t := c * r + d
    some ⟨(a * r + b) / t, (b * r - a) / t⟩
  else
    let nan := 0.0 / 0.0
    some ⟨nan, nan⟩

def cosSin (x : Float) : Float × Float :=
  if x.abs > Binary64.twoPow (-1022) then (x.cos, x.sin) else (1.0, x)

/-- The exponential `e^re · (cos im + i sin im)`, computed without spurious overflow for real
parts above 709 and with the conventional values at infinite and NaN parts. -/
def exp (z : DComplex) : DComplex :=
  let (x, y) := (z.re, z.im)
  let nan := 0.0 / 0.0
  let huge := Binary64.signedInfinity false
  if x.isFinite then
    if y.isFinite then
      let (c, s) := cosSin y
      let t : Float := 709.0
      let et := t.exp
      -- take out up to two factors of `e^709` before the exponential overflows
      let (x, c, s) := if x > t then (x - t, c * et, s * et) else (x, c, s)
      let (x, c, s) := if x > t then (x - t, c * et, s * et) else (x, c, s)
      if x > t then
        let largest := Binary64.pack false 2046 (Nat.pow 2 52 - 1)
        ⟨largest * c, largest * s⟩
      else
        let ex := x.exp
        ⟨ex * c, ex * s⟩
    else ⟨nan, nan⟩
  else if x.isInf then
    let negative := x < 0.0
    if y.isFinite then
      let value := if negative then 0.0 else huge
      if y == 0.0 then ⟨value, y⟩
      else
        let (c, s) := cosSin y
        ⟨Binary64.copySign value c, Binary64.copySign value s⟩
    else if !negative then ⟨huge, y - y⟩
    else ⟨0.0, Binary64.copySign 0.0 y⟩
  else
    if y == 0.0 then ⟨nan, y⟩ else ⟨nan, nan⟩

end DComplex

end Qubits
