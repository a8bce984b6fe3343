/-!
Blank characters, words and lines. The blank characters are those of Unicode 14.0 with the
bidirectional class WS, B or S or the general category Zs. Words are the maximal runs of
non-blank characters. Lines end at a line break; a break that ends the text opens no further line.
-/

namespace Qubits.Text

/-- Whether a character is blank: tab to carriage return, U+001C to space, U+0085, U+00A0,
U+1680, U+2000 to U+200A, U+2028, U+2029, U+202F, U+205F and U+3000. -/
def isBlank (c : Char) : Bool :=
  let n := c.toNat
  (0x09 ≤ n && n ≤ 0x0D) || (0x1C ≤ n && n ≤ 0x20) || n == 0x85 || n == 0xA0 || n == 0x1680 ||
    (0x2000 ≤ n && n ≤ 0x200A) || n == 0x2028 || n == 0x2029 || n == 0x202F || n == 0x205F ||
    n == 0x3000

def isAsciiBlank (c : Char) : Bool :=
  c == ' ' || (0x09 ≤ c.toNat && c.toNat ≤ 0x0D)

/-- The words of a list of characters, each word reversed: the accumulator holds the finished
words (last first) and the word being read (reversed). -/
def wordsStep (acc : List (List Char) × List Char) (c : Char) : List (List Char) × List Char :=
  if isBlank c then
    if acc.2.isEmpty then acc else (acc.2 :: acc.1, [])
  else (acc.1, c :: acc.2)

def words (s : String) : List String :=
  let (done, current) := s.toList.foldl wordsStep ([], [])
  let done := if current.isEmpty then done else current :: done
  (done.map fun w => String.ofList w.reverse).reverse

def trimBlank (s : String) : String :=
  String.ofList ((s.toList.dropWhile isBlank).reverse.dropWhile isBlank).reverse

/-- The lines of a list of characters, given what ends a line: a carriage return directly
followed by a line feed ends one line together. `current` is the line being read, reversed. -/
def linesBy (isBreak : Char → Bool) : List Char → List Char → List String
  | current, [] => if current.isEmpty then [] else [String.ofList current.reverse]
  | current, '\r' :: '\n' :: rest => String.ofList current.reverse :: linesBy isBreak [] rest
  | current, c :: rest =>
    if isBreak c then String.ofList current.reverse :: linesBy isBreak [] rest
    else linesBy isBreak (c :: current) rest

def isFileLineBreak (c : Char) : Bool := c == '\n' || c == '\r'

/-- Whether a character breaks a line of a text value: line feed, vertical tab, form feed,
carriage return, U+001C to U+001E, U+0085, U+2028 and U+2029. -/
def isLineBreak (c : Char) : Bool :=
  let n := c.toNat
  (0x0A ≤ n && n ≤ 0x0D) || (0x1C ≤ n && n ≤ 0x1E) || n == 0x85 || n == 0x2028 || n == 0x2029

def fileLines (s : String) : List String := linesBy isFileLineBreak [] s.toList

def lines (s : String) : List String := linesBy isLineBreak [] s.toList

end Qubits.Text
