import Qubits.Text.Printable
import Qubits.Numeric.Shortest

namespace Qubits

inductive Fault where
  | noCommandWord
  | unboundLocal (name : String)
  | unboundGlobal (name : String)
  | invalidInt (text : String)
  | intTooLong (digits : Nat)
  | intTooLongToPrint
  | unexpectedKeyword (function keyword : String)
  | exit (message : String)
  | missingLogarithm
  | logOfHugeInt
  | indexOutOfBounds (index : Int) (size : Nat)
  /-- An index from `2^63` up to `2^64`, beyond a machine index. -/
  | indexOverflow
  /-- An index beyond both the signed and the unsigned machine words. -/
  | invalidIndex
  | negativeShift
  | moduloByZero
  | floatModulo
  | complexDivisionByZero
  | powerOverflow
  | intTooLargeForFloat
  | infinityToInt
  | fractionalCount
  /-- An array size of `2^n` with `n ≥ 63`. -/
  | dimensionTooLarge
  /-- An array whose byte size exceeds the largest machine word. -/
  | arrayTooBig
  | fractionalDimension (size : Float)
  | negativeDimension
  /-- A logarithm of zero. -/
  | mathDomain
  deriving Inhabited

namespace Fault

def kind : Fault → String
  | .noCommandWord => "IndexError"
  | .unboundLocal _ => "UnboundLocalError"
  | .unboundGlobal _ => "NameError"
  | .invalidInt _ => "ValueError"
  | .intTooLong _ => "ValueError"
  | .intTooLongToPrint => "ValueError"
  | .unexpectedKeyword _ _ => "TypeError"
  | .exit _ => "SystemExit"
  | .missingLogarithm => "AttributeError"
  | .logOfHugeInt => "TypeError"
  | .indexOutOfBounds _ _ => "IndexError"
  | .indexOverflow => "OverflowError"
  | .invalidIndex => "IndexError"
  | .negativeShift => "ValueError"
  | .moduloByZero => "ZeroDivisionError"
  | .floatModulo => "ZeroDivisionError"
  | .complexDivisionByZero => "ZeroDivisionError"
  | .powerOverflow => "OverflowError"
  | .intTooLargeForFloat => "OverflowError"
  | .infinityToInt => "OverflowError"
  | .fractionalCount => "TypeError"
  | .dimensionTooLarge => "ValueError"
  | .arrayTooBig => "ValueError"
  | .fractionalDimension _ => "TypeError"
  | .negativeDimension => "ValueError"
  | .mathDomain => "ValueError"

def clip (n : Nat) (s : String) : String := String.ofList (s.toList.take n)

def tick (s : String) : String :=
  let t := String.ofList [Char.ofNat 96]
  t ++ s ++ t

def message : Fault → String
  | .noCommandWord => "list index out of range"
  | .unboundLocal name =>
    "cannot access local variable " ++ Text.quote name ++ " where it is not associated with a value"
  | .unboundGlobal name => "name " ++ Text.quote name ++ " is not defined"
  | .invalidInt text => "invalid literal for int() with base 10: " ++ clip 200 (Text.quote text)
  | .intTooLong digits =>
    "Exceeds the limit (4300 digits) for integer string conversion: value has " ++
      Decimal.digitString digits ++
      " digits; use sys.set_int_max_str_digits() to increase the limit"
  | .intTooLongToPrint =>
    "Exceeds the limit (4300 digits) for integer string conversion; " ++
      "use sys.set_int_max_str_digits() to increase the limit"
  | .unexpectedKeyword function keyword =>
    function ++ "() got an unexpected keyword argument " ++ Text.quote keyword
  | .exit message => message
  | .missingLogarithm =>
    "module " ++ Text.quote "numpy" ++ " has no attribute " ++ Text.quote "lSign2"
  | .logOfHugeInt =>
    "loop of ufunc does not support argument 0 of type int which has no callable log2 method"
  | .indexOutOfBounds index size =>
    "index " ++ toString index ++ " is out of bounds for axis 0 with size " ++ toString size
  | .indexOverflow => "Python int too large to convert to C long"
  | .invalidIndex =>
    "only integers, slices (" ++ tick ":" ++ "), ellipsis (" ++ tick "..." ++
      "), numpy.newaxis (" ++ tick "None" ++ ") and integer or boolean arrays are valid indices"
  | .negativeShift => "negative shift count"
  | .moduloByZero => "integer modulo by zero"
  | .floatModulo => "float modulo"
  | .complexDivisionByZero => "complex division by zero"
  | .powerOverflow => "(34, " ++ Text.quote "Numerical result out of range" ++ ")"
  | .intTooLargeForFloat => "int too large to convert to float"
  | .infinityToInt => "cannot convert float infinity to integer"
  | .fractionalCount => Text.quote "float" ++ " object cannot be interpreted as an integer"
  | .dimensionTooLarge => "Maximum allowed dimension exceeded"
  | .arrayTooBig =>
    "array is too big; " ++ tick "arr.size * arr.dtype.itemsize" ++
      " is larger than the maximum possible size."
  | .fractionalDimension size =>
    "expected a sequence of integers or a single integer, got " ++
      Text.quote (Decimal.shortestText size)
  | .negativeDimension => "negative dimensions are not allowed"
  | .mathDomain => "math domain error"

end Fault

end Qubits
