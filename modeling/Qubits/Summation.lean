import Qubits.Amplitude

/-!
# Pairwise summation

The sum of an array as vectorised array code forms it. Fewer than eight entries are added from
left to right. Up to 128 entries are added in eight interleaved running sums (sum `k` takes the
entries `k, k + 8, k + 16, …` of the largest multiple of eight), which are combined as a balanced
tree, and the entries left over are added to the result one by one. A longer block is split in two
at half its length rounded down to a multiple of eight, and the sums of the halves are added. The
rounding error then grows with the logarithm of the length rather than with the length, and the
order of additions is fixed, so the result is reproducible to the bit.
-/

namespace Qubits

variable {R : Type} [RealScalar R]

def entry (a : Array R) (i : Nat) : R := a.getD i (RealScalar.ofInt 0)

def runningSum (a : Array R) (acc : R) (start count : Nat) : R :=
  (List.range count).foldl (fun s i => s + entry a (start + i)) acc

/-- Running sum `k` of the eight interleaved sums over the first `blocks` groups of eight entries
from `start`. -/
def laneSum (a : Array R) (start blocks k : Nat) : R :=
  (List.range (blocks - 1)).foldl (fun s b => s + entry a (start + 8 * (b + 1) + k))
    (entry a (start + k))

/-- The sum of a block of at most 128 entries, at least eight: the eight interleaved sums combined
as a balanced tree, then the rest added one by one. -/
def blockSum (a : Array R) (start count : Nat) : R :=
  let blocks := count / 8
  let r := laneSum a start blocks
  let tree := ((r 0 + r 1) + (r 2 + r 3)) + ((r 4 + r 5) + (r 6 + r 7))
  runningSum a tree (start + 8 * blocks) (count % 8)

def pairwiseSum (a : Array R) (start count : Nat) : R :=
  if count < 8 then runningSum a (RealScalar.ofInt 0) start count
  else if count ≤ 128 then blockSum a start count
  else
    let half := count / 2 - count / 2 % 8
    pairwiseSum a start half + pairwiseSum a (start + half) (count - half)
termination_by count
decreasing_by
  all_goals omega

def arraySum (a : Array R) : R :=
  RealScalar.ofInt 0 + pairwiseSum a 0 a.size

end Qubits
