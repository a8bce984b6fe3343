import Qubits.Script.Session

/-!
The two final reports. The listing shows each basis state whose probability `re² + im²` exceeds
the threshold. The measurement report groups the basis states by the values of the measured
qubits (the outcome packs them, the lowest measured qubit in the lowest bit), prints the
probability of each outcome above `10⁻¹¹` and the state it leaves: the amplitudes of modulus above
`10⁻⁴` with that outcome, divided by the root of its probability.
-/

namespace Qubits.Script

open StateVector

variable {R K : Type} [RealScalar R] [Amplitude R K]

def probability (x : K) : R :=
  Amplitude.re x * Amplitude.re x + Amplitude.im x * Amplitude.im x

def finalListing (n : Int) (c : Array K) (threshold : R) : Run R K Unit := do
  emit (.finalHeader threshold)
  let probs := c.map probability
  if n < 0 then fail .fractionalCount
  let n := n.toNat
  for k in List.range (Nat.pow 2 n) do
    let p ← ofExcept (read probs k)
    if RealScalar.lt threshold p then emit (.finalEntry n k p (c.getD k Amplitude.zero))

def outcomeOf (flags : Array Bool) (n i : Nat) : Except Fault Nat := do
  let packed ← (List.range n).foldlM (fun (acc : Nat × Nat) j => do
    let measured ← read flags j
    pure (if measured then
      (acc.1 + (if i.testBit j then Nat.pow 2 acc.2 else 0), acc.2 + 1) else acc))
    (0, 0)
  pure packed.1

def measuredQubits (flags : Array Bool) (n : Nat) : List Nat :=
  (List.range n).filter fun j => flags.getD j false

/-- The probability of each outcome of the measured qubits: the sum of `|x|²` over the basis
states with that outcome, in `2 ^ k` buckets for the `k` measured qubits. -/
def outcomeProbabilities (n : Nat) (c : Array K) (flags : Array Bool) : Except Fault (Array R) :=
  (List.range (Nat.pow 2 n)).foldlM (fun (ps : Array R) i => do
      let b ← outcomeOf flags n i
      let x ← read c i
      let p ← read ps b
      pure (ps.setIfInBounds b (p + RealScalar.powTwo (Amplitude.abs x))))
    (Array.replicate (Nat.pow 2 (flags.countP id)) (RealScalar.ofInt 0))

def listedModulus : R := RealScalar.ofInt 1 / RealScalar.ofInt 10000

/-- The state each outcome leaves: the amplitudes of modulus above `listedModulus` with that
outcome, each divided by the root of the outcome's probability in `probs` and labelled with its
basis state. -/
def outcomeTerms (n : Nat) (c : Array K) (flags : Array Bool) (probs : Array R) :
    Except Fault (Array (List (K × String))) :=
  (List.range (Nat.pow 2 n)).foldlM
    (fun (ts : Array (List (K × String))) i => do
      let b ← outcomeOf flags n i
      let x ← read c i
      if RealScalar.lt listedModulus (Amplitude.abs x) then
        let p ← read probs b
        let t ← read ts b
        pure (ts.setIfInBounds b (t ++ [(Amplitude.divReal x (RealScalar.sqrt p), Bits.label n i)]))
      else pure ts)
    (Array.replicate (Nat.pow 2 (flags.countP id)) [])

def marginalReport (n : Int) (c : Array K) (flags : Array Bool) : Run R K Unit := do
  let count := flags.countP id
  let buckets := Nat.pow 2 count
  if n < 0 then fail .fractionalCount
  let n := n.toNat
  let probs ← ofExcept (outcomeProbabilities n c flags)
  let terms ← ofExcept (outcomeTerms n c flags probs)
  if count > 0 then
    emit (.measuredQubits count (measuredQubits flags n))
  for i in List.range buckets do
    let p := probs.getD i (RealScalar.ofInt 0)
    if RealScalar.lt (RealScalar.ofFloat 0.00000000001) p then
      if count > 0 then emit (.outcomeProbability (Bits.label count i) p)
      emit (.outcomeState (terms.getD i []))

end Qubits.Script
