import Qubits.Numeric.Binary64

/-!
The shortest decimal that reads back as a given double. A positive finite double `m · 2^e` owns
the interval of reals that round to it (its ends included when `m` is even). For 1, 2, … 17
significant digits we look at the two decimals of that length around the value; the first length
with one of them inside the interval wins, and of two such decimals the nearer one (a tie goes to
the even digit string). Seventeen digits always suffice.
-/

namespace Qubits.Decimal

def compareScaled (a : Nat) (i j : Int) (b : Nat) (i' j' : Int) : Ordering :=
  let i0 := min i i'
  let j0 := min j j'
  compare (a * Nat.pow 2 (i - i0).toNat * Nat.pow 10 (j - j0).toNat)
    (b * Nat.pow 2 (i' - i0).toNat * Nat.pow 10 (j' - j0).toNat)

def floorScaled (m : Nat) (e q : Int) : Nat :=
  (m * Nat.pow 2 (max e 0).toNat * Nat.pow 10 (max (-q) 0).toNat) /
    (Nat.pow 2 (max (-e) 0).toNat * Nat.pow 10 (max q 0).toNat)

def floorLog10 (m : Nat) (e : Int) : Int :=
  -- log10 2 ≈ 0.30103; the estimate is off by at most one either way
  let guess : Int := ((Int.ofNat m.log2 + e) * 301029) / 1000000
  if compareScaled 1 0 (guess + 1) m e 0 != .gt then guess + 1
  else if compareScaled 1 0 guess m e 0 != .gt then guess
  else guess - 1

structure Scientific where
  digits : Nat
  exponent : Int
  deriving Repr, Inhabited

def Scientific.normalize (s : Scientific) : Scientific :=
  -- a double has at most 17 significant digits, beside trailing zeros bounded by its size
  go 400 s.digits s.exponent
where
  go : Nat → Nat → Int → Scientific
    | 0, d, q => ⟨d, q⟩
    | fuel + 1, d, q => if d ≠ 0 ∧ d % 10 = 0 then go fuel (d / 10) (q + 1) else ⟨d, q⟩

/-- The rounding interval of the positive double `m · 2^e`, as the ends `lo · 2^k` and
`hi · 2^k`, and whether the ends belong to it. -/
def roundingInterval (m : Nat) (e : Int) : Nat × Nat × Int × Bool :=
  if m = Nat.pow 2 52 ∧ e > -1074 then (4 * m - 1, 4 * m + 2, e - 2, m % 2 == 0)
  else (2 * m - 1, 2 * m + 1, e - 1, m % 2 == 0)

def readsBack (m : Nat) (e : Int) (d : Nat) (q : Int) : Bool :=
  let (lo, hi, k, closed) := roundingInterval m e
  let aboveLo := compareScaled d 0 q lo k 0
  let belowHi := compareScaled d 0 q hi k 0
  (aboveLo == .gt || (closed && aboveLo == .eq)) && (belowHi == .lt || (closed && belowHi == .eq))

/-- The decimal with `p` significant digits that reads back as `m · 2^e`, if there is one;
`k` is `⌊log10 (m · 2^e)⌋`. -/
def candidate (m : Nat) (e k : Int) (p : Nat) : Option Scientific :=
  let q := k - p + 1
  let lo := floorScaled m e q
  let hi := lo + 1
  match readsBack m e lo q, readsBack m e hi q with
  | true, true =>
    -- the nearer of the two; `2x` against `(lo + hi) · 10^q`
    match compareScaled (2 * m) e 0 (lo + hi) 0 q with
    | .lt => some ⟨lo, q⟩
    | .gt => some ⟨hi, q⟩
    | .eq => some ⟨if lo % 2 = 0 then lo else hi, q⟩
  | true, false => some ⟨lo, q⟩
  | false, true => some ⟨hi, q⟩
  | false, false => none

/-- The shortest decimal that reads back as the positive double `m · 2^e`, nearest to it among
those of its length, without trailing zeros. -/
def shortest (m : Nat) (e : Int) : Scientific :=
  let k := floorLog10 m e
  let found := (List.range 17).findSome? fun i => candidate m e k (i + 1)
  (found.getD ⟨floorScaled m e (k - 16), k - 16⟩).normalize

def digitString (n : Nat) : String :=
  String.ofList (Nat.toDigits 10 n)

def padded (width n : Nat) : String :=
  let s := digitString n
  String.ofList (List.replicate (width - s.length) '0') ++ s

def exponentText (x : Int) : String :=
  "e" ++ (if x < 0 then "-" else "+") ++ padded 2 x.natAbs

/-- The text of a finite nonnegative decimal in the shortest-round-trip style: positional when the
decimal point falls at most 16 places right of the first digit and less than 4 places left of it,
otherwise one digit, a point if more digits follow, and an exponent. Positional text keeps at
least one digit after the point. -/
def Scientific.text (s : Scientific) : String :=
  let ds := digitString s.digits
  let n : Int := ds.length
  -- the value is 0.ds × 10^point
  let point := n + s.exponent
  if -4 < point ∧ point ≤ 16 then
    if point ≤ 0 then
      "0." ++ String.ofList (List.replicate (-point).toNat '0') ++ ds
    else if point ≥ n then
      ds ++ String.ofList (List.replicate (point - n).toNat '0') ++ ".0"
    else
      String.ofList (ds.toList.take point.toNat) ++ "." ++
        String.ofList (ds.toList.drop point.toNat)
  else
    let rest := String.ofList (ds.toList.drop 1)
    String.ofList (ds.toList.take 1) ++ (if rest.isEmpty then "" else "." ++ rest) ++
      exponentText (point - 1)

/-- The shortest text that reads back as the double: `nan`, `inf`, `-inf`, `0.0`, `-0.0`, or the
shortest decimal in the style of `Scientific.text`, with a minus sign for negative values. -/
def shortestText (x : Float) : String :=
  match Binary64.decode x with
  | .nan => "nan"
  | .infinite negative => if negative then "-inf" else "inf"
  | .finite negative m e =>
    let body := if m = 0 then "0.0" else (shortest m e).text
    if negative then "-" ++ body else body

end Qubits.Decimal
