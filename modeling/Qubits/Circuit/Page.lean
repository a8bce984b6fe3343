import Qubits.Circuit.Run
import Qubits.Numeric.Fixed

/-!
# The simulator page

The page of the circuit runner: a form with a text area for the commands, one per line, and, once
commands are sent, the result of running them: each amplitude's real part (and its imaginary part
when that exceeds `10⁻⁶` in size) with three decimals, and each basis state's probability with
three decimals, the basis states labelled by their index in binary, most significant qubit first.
The commands are echoed in the text area with the characters that are markup written as character
references. A run that stops with a fault answers the generic server error page instead.
-/

namespace Qubits.Circuit

open Decimal

def pageHead : String :=
  "<!-- templates/index.html -->\n"
  ++ "<!DOCTYPE html>\n"
  ++ "<html lang=\"en\">\n"
  ++ "<head>\n"
  ++ "  <meta charset=\"UTF-8\">\n"
  ++ "  <title>Quantum Computer Simulator</title>\n"
  ++ "  <style>\n"
  ++ "    body \x7b\n"
  ++ "      font-family: Arial, sans-serif;\n"
  ++ "      margin: 20px;\n"
  ++ "    \x7d\n"
  ++ "    textarea \x7b\n"
  ++ "      width: 100%;\n"
  ++ "      height: 200px;\n"
  ++ "      font-family: monospace;\n"
  ++ "      font-size: 14px;\n"
  ++ "    \x7d\n"
  ++ "    .result \x7b\n"
  ++ "      margin-top: 20px;\n"
  ++ "      padding: 10px;\n"
  ++ "      border: 1px solid #ccc;\n"
  ++ "      background-color: #f9f9f9;\n"
  ++ "    \x7d\n"
  ++ "    label \x7b\n"
  ++ "      font-weight: bold;\n"
  ++ "    \x7d\n"
  ++ "  </style>\n"
  ++ "</head>\n"
  ++ "<body>\n"
  ++ "  <h1>Quantum Computer Simulator</h1>\n"
  ++ "  <form method=\"post\">\n"
  ++ "    <label for=\"circuit\">Enter circuit commands (one per line):</label><br>\n"
  ++ "    <textarea name=\"circuit\" id=\"circuit\" placeholder=\"Example:\n"
  ++ "init 2\n"
  ++ "h 0\n"
  ++ "x 1\n"
  ++ "h 1\">"

def pageFormEnd : String :=
  "</textarea><br><br>\n" ++
  "    <button type=\"submit\">Run Simulation</button>\n" ++
  "  </form>\n" ++
  "  \n" ++
  "  "

def pageEnd : String := "\n</body>\n</html>"

def errorPage : String :=
  "<!DOCTYPE HTML PUBLIC \"-//W3C//DTD HTML 3.2 Final//EN\">\n"
  ++ "<title>500 Internal Server Error</title>\n"
  ++ "<h1>Internal Server Error</h1>\n"
  ++ "<p>The server encountered an internal error and was unable to complete your request. "
  ++ "Either the server is overloaded or there is an error in the application.</p>\n"

def escapeChar (c : Char) : String :=
  match c with
  | '&' => "&amp;"
  | '<' => "&lt;"
  | '>' => "&gt;"
  | '"' => "&#34;"
  | _ => if c.toNat = 39 then "&#39;" else c.toString

def escapeText (s : String) : String := String.join (s.toList.map escapeChar)

def binaryLabel (width i : Nat) : String :=
  let digits := (Nat.toDigits 2 i)
  String.ofList (List.replicate (width - digits.length) '0' ++ digits)

def amplitudeText (n i : Nat) (z : DComplex) : String :=
  "|" ++ binaryLabel n i ++ ">: " ++ fixedText .negativeOnly 3 z.re ++
    (if z.im.abs > 0.000001 then " + " ++ fixedText .negativeOnly 3 z.im ++ "i" else "") ++ "<br>"

def probabilityText (n i : Nat) (p : Float) : String :=
  "P(|" ++ binaryLabel n i ++ ">) = " ++ fixedText .negativeOnly 3 p ++ "<br>"

def resultBlock (o : Outcome Float DComplex) : String :=
  let states := String.join ((o.state.toList.zipIdx).map fun (z, i) => amplitudeText o.size i z)
  let probs := String.join ((o.probabilities.toList.zipIdx).map fun (p, i) =>
    probabilityText o.size i p)
  "\n  <div class=\"result\">\n" ++
  "    <h2>Simulation Result</h2>\n" ++
  "    <h3>Final State Vector</h3>\n" ++
  "    <p>" ++ states ++ "</p>\n" ++
  "    <h3>Measurement Probabilities</h3>\n" ++
  "    <p>" ++ probs ++ "</p>\n" ++
  "  </div>\n" ++
  "  "

def emptyPage : String := pageHead ++ pageFormEnd ++ pageEnd

/-- The page for sent commands, the lines of `circuit`: the commands echoed in the form and the
result of running them, or the fault that stopped the run. -/
def resultPage (circuit : String) : Except Fault String := do
  let o ← run (R := Float) (K := DComplex) (Text.lines circuit)
  pure (pageHead ++ escapeText circuit ++ pageFormEnd ++ resultBlock o ++ pageEnd)

/-- The answer to sent commands: the status and the page. A run that stops with a fault gives
status 500 and the error page. -/
def submit (circuit : String) : Nat × String :=
  match resultPage circuit with
  | .ok page => (200, page)
  | .error _ => (500, errorPage)

end Qubits.Circuit
