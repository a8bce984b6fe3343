import Qubits.Workload.Programs

namespace Qubits.Workload

inductive Bench where
  | circuitRun
  | gateKernels
  | fullProgram
  | programVariants
  | kernelChain
  | pageSizes
  | hadamardLadder
  deriving Repr, DecidableEq, Inhabited

namespace Bench

def all : List Bench :=
  [.circuitRun, .gateKernels, .fullProgram, .programVariants, .kernelChain, .pageSizes,
    .hadamardLadder]

def name : Bench → String
  | .circuitRun => "bench_core_run_circuit"
  | .gateKernels => "bench_core_gate_kernels"
  | .fullProgram => "bench_qcsim_full_program"
  | .programVariants => "bench_qcsim_init_variants"
  | .kernelChain => "bench_qcsim_gate_kernels"
  | .pageSizes => "bench_flask_app"
  | .hadamardLadder => "bench_gui_app"

def ofName? (s : String) : Option Bench := all.find? (·.name == s)

def defaultQubits : Bench → Int
  | .circuitRun => 11
  | .gateKernels => 13
  | .fullProgram => 10
  | .programVariants => 9
  | .kernelChain => 12
  | .pageSizes => 8
  | .hadamardLadder => 12

def run (b : Bench) (n : Int) : Except Fault (Reading Float) :=
  match b with
  | .circuitRun => Workload.circuitRun (K := DComplex) n
  | .gateKernels => Workload.gateKernels (K := DComplex) n
  | .fullProgram => Workload.fullProgram (K := DComplex) n
  | .programVariants => Workload.programVariants (K := DComplex) n
  | .kernelChain => Workload.kernelChain (K := DComplex) n
  | .pageSizes => Workload.pageSizes n
  | .hadamardLadder => Workload.hadamardLadder (K := DComplex) n

def runWith (b : Bench) (arguments : List (String × Int)) : Except Fault (Reading Float) :=
  match arguments.find? (·.1 != "n_qubits") with
  | some (keyword, _) => .error (.unexpectedKeyword b.name keyword)
  | none =>
    let n := match arguments.find? (·.1 == "n_qubits") with
      | some (_, n) => n
      | none => b.defaultQubits
    b.run n

end Bench

def runSuite (arguments : List (String × Int)) : Except Fault (Reading Float) := do
  for b in Bench.all do
    let _ ← b.runWith arguments
  pure .nothing

end Qubits.Workload
