import Qubits.Numeric.Shortest

/-!
Decimal text with a fixed number of digits: `places` digits after the point, or `digits` digits
after the first significant one followed by an exponent. Both round the exact binary value to the
nearest decimal of that shape, a tie going to the even last digit.
-/

namespace Qubits.Decimal

inductive SignStyle where
  | negativeOnly
  | always
  deriving Repr, DecidableEq

def SignStyle.mark (style : SignStyle) (negative : Bool) : String :=
  if negative then "-" else if style = .always then "+" else ""

def roundScaled (m : Nat) (e k : Int) : Nat :=
  let num := m * Nat.pow 2 (max e 0).toNat * Nat.pow 10 (max k 0).toNat
  let den := Nat.pow 2 (max (-e) 0).toNat * Nat.pow 10 (max (-k) 0).toNat
  Binary64.roundHalfEven (num / den) (num % den) den

/-- A natural number `n` read as `n / 10^places`, written with exactly `places` digits after
the point (no point when `places` is zero). -/
def pointText (places n : Nat) : String :=
  let ds := padded (places + 1) n
  if places = 0 then ds
  else
    let whole := ds.length - places
    String.ofList (ds.toList.take whole) ++ "." ++ String.ofList (ds.toList.drop whole)

def nonFiniteText (style : SignStyle) : Binary64.Value → Option String
  | .nan => some (style.mark false ++ "nan")
  | .infinite negative => some (style.mark negative ++ "inf")
  | .finite _ _ _ => none

def fixedText (style : SignStyle) (places : Nat) (x : Float) : String :=
  let v := Binary64.decode x
  match nonFiniteText style v with
  | some t => t
  | none =>
    match v with
    | .finite negative m e => style.mark negative ++ pointText places (roundScaled m e places)
    | _ => ""

def scientificText (style : SignStyle) (digits : Nat) (x : Float) : String :=
  let v := Binary64.decode x
  match nonFiniteText style v with
  | some t => t
  | none =>
    match v with
    | .finite negative m e =>
      let (n, k) : Nat × Int :=
        if m = 0 then (0, 0)
        else
          let k := floorLog10 m e
          let n := roundScaled m e (digits - k)
          -- rounding up may reach the next power of ten
          if n = Nat.pow 10 (digits + 1) then (Nat.pow 10 digits, k + 1) else (n, k)
      style.mark negative ++ pointText digits n ++ exponentText k
    | _ => ""

end Qubits.Decimal
