import Qubits.Numeric.Binary64

/-!
# The Mersenne Twister

The MT19937 generator of 32-bit words, with the seeding that takes an integer of any size: the
magnitude of the seed is cut into 32-bit words, least significant first, and those words are
mixed into the state the generator starts from. A double in `[0, 1)` is made from two words, the
top 27 bits of the first and the top 26 bits of the second forming a 53-bit numerator over `2^53`,
so it is exact; a uniform value on `[a, b)` is `a + (b - a) · u`.
-/

namespace Qubits.Random

def stateWords : Nat := 624

def shift : Nat := 397

/-- The generator: its 624 words of state and the position of the next word to hand out; a
position of 624 means that the state is used up and is regenerated before the next word. -/
structure Twister where
  state : Array UInt32
  position : Nat
  deriving Inhabited

namespace Twister

def word (mt : Array UInt32) (i : Nat) : UInt32 := mt.getD i 0

def ofWord (s : UInt32) : Array UInt32 :=
  (List.range (stateWords - 1)).foldl (fun mt i =>
    let w := word mt i
    mt.push ((1812433253 : UInt32) * (w ^^^ (w >>> 30)) + UInt32.ofNat (i + 1))) #[s]

def absorb (factor : UInt32) (mt : Array UInt32) (i : Nat) (extra : UInt32) :
    Array UInt32 × Nat :=
  let w := word mt (i - 1)
  let mt := mt.setIfInBounds i ((word mt i ^^^ ((w ^^^ (w >>> 30)) * factor)) + extra)
  if i + 1 ≥ stateWords then (mt.setIfInBounds 0 (word mt (stateWords - 1)), 1) else (mt, i + 1)

def seedState (key : Array UInt32) : Array UInt32 :=
  let n := max key.size 1
  let (mt, i, _) := (List.range (max stateWords key.size)).foldl
    (fun (acc : Array UInt32 × Nat × Nat) _ =>
      let (mt, i, j) := acc
      let (mt, i) := absorb 1664525 mt i (key.getD j 0 + UInt32.ofNat j)
      (mt, i, if j + 1 ≥ n then 0 else j + 1))
    (ofWord 19650218, 1, 0)
  let (mt, _) := (List.range (stateWords - 1)).foldl (fun (acc : Array UInt32 × Nat) _ =>
      absorb 1566083941 acc.1 acc.2 (0 - UInt32.ofNat acc.2))
    (mt, i)
  mt.setIfInBounds 0 0x80000000

def keyWords (n : Nat) : Array UInt32 :=
  let count := if n = 0 then 1 else (n.log2 / 32) + 1
  ((List.range count).map fun i => UInt32.ofNat (n / Nat.pow 2 (32 * i) % Nat.pow 2 32)).toArray

def seeded (seed : Int) : Twister :=
  ⟨seedState (keyWords seed.natAbs), stateWords⟩

def regenerate (mt : Array UInt32) : Array UInt32 :=
  (List.range stateWords).foldl (fun mt k =>
    let y := (word mt k &&& 0x80000000) ||| (word mt ((k + 1) % stateWords) &&& 0x7fffffff)
    let mixed := word mt ((k + shift) % stateWords) ^^^ (y >>> 1) ^^^
      (if y &&& 1 = 1 then 0x9908b0df else 0)
    mt.setIfInBounds k mixed) mt

def temper (y : UInt32) : UInt32 :=
  let y := y ^^^ (y >>> 11)
  let y := y ^^^ ((y <<< 7) &&& 0x9d2c5680)
  let y := y ^^^ ((y <<< 15) &&& 0xefc60000)
  y ^^^ (y >>> 18)

def next (g : Twister) : UInt32 × Twister :=
  let (mt, i) := if g.position ≥ stateWords then (regenerate g.state, 0) else (g.state, g.position)
  (temper (word mt i), ⟨mt, i + 1⟩)

/-- The next double in `[0, 1)`: `(a · 2^26 + b) / 2^53` with `a` the top 27 bits of one word and
`b` the top 26 bits of the next. -/
def nextUnit (g : Twister) : Float × Twister :=
  let (a, g) := g.next
  let (b, g) := g.next
  let numerator := (a >>> 5).toNat * Nat.pow 2 26 + (b >>> 6).toNat
  (Binary64.roundRatio false numerator (Nat.pow 2 53) 0, g)

def nextSigned (g : Twister) : Float × Twister :=
  let (u, g) := g.nextUnit
  (-1.0 + 2.0 * u, g)

end Twister

end Qubits.Random
