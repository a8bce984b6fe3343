import Qubits.Script.Line
import Qubits.StateVector

namespace Qubits.Script

inductive Start (R : Type) where
  | ground
  | random (first last : Int)
  | modular (modulus base : R)

structure Session (R K : Type) where
  printed : Array (Line R K)
  size : Nat
  state : Option (Array K)
  /-- The state the final reports read, once a step has set it. -/
  report : Option (Array K)
  measured : Array Bool
  /-- The qubit of the last loop over single qubits. -/
  cursor : Option Int
  verbose : Int
  plot : Int
  printout : Int
  threshold : R
  start : Start R

abbrev Run (R K : Type) := EStateM Fault (Session R K)

variable {R K : Type} [RealScalar R] [Amplitude R K]

/-- The session before anything has run: no qubits, no state, verbosity 0, no plot, the final
listing on, the threshold 0 and the register starting in `|0…0⟩`. -/
def Session.initial : Session R K where
  printed := #[]
  size := 0
  state := none
  report := none
  measured := #[]
  cursor := none
  verbose := 0
  plot := 0
  printout := 1
  threshold := RealScalar.ofInt 0
  start := .ground

def emit (l : Line R K) : Run R K Unit :=
  modify fun s => { s with printed := s.printed.push l }

def fail {α : Type} (f : Fault) : Run R K α := throw f

def ofExcept {α : Type} : Except Fault α → Run R K α
  | .ok a => pure a
  | .error f => throw f

def currentState : Run R K (Array K) := do
  match (← get).state with
  | some a => pure a
  | none => fail (.unboundGlobal "A")

def setState (a : Array K) : Run R K Unit :=
  modify fun s => { s with state := some a }

def cursorQubit : Run R K Int := do
  match (← get).cursor with
  | some q => pure q
  | none => fail (.unboundGlobal "qbit")

def setCursor (q : Int) : Run R K Unit :=
  modify fun s => { s with cursor := some q }

def reportState : Run R K (Array K) := do
  match (← get).report with
  | some a => pure a
  | none => fail (.unboundGlobal "C")

end Qubits.Script
