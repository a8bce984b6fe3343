import Qubits.Script.Program
import Qubits.Script.Render

/-!
# Command line

`qubits FILE` runs the program in `FILE` and prints what it prints. A run that stops with a fault
prints the output up to the fault, then the fault's class and text on the error stream, and exits
with status 1; a stop asked for by the program prints its message alone. The random start is
seeded from the clock, and the `sk` gate is not available.
-/

open Qubits

def faultReport (f : Fault) : String :=
  match f with
  | .exit message => message
  | _ => f.kind ++ ": " ++ f.message

def main (args : List String) : IO UInt32 := do
  match args with
  | path :: _ =>
    let text ← IO.FS.readFile path
    let seed ← IO.monoNanosNow
    let run := Script.runProgram (R := Float) (K := DComplex) false seed text
    match run.run Script.Session.initial with
    | .ok _ s =>
      IO.print (Script.printedText s.printed)
      pure 0
    | .error f s =>
      IO.print (Script.printedText s.printed)
      IO.eprintln (faultReport f)
      pure 1
  | [] =>
    IO.eprintln (faultReport (.unboundGlobal "file"))
    pure 1
