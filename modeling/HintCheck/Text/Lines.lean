/-!
The lines of a text. A line ends with a newline, with or without a carriage return before it; a text
that ends with a newline has no further line after it.
-/
namespace HintCheck.Text

/-- The characters of a finished line, from its characters in reverse. -/
def finishLine : List Char → List Char
  | '\r' :: rest => rest.reverse
  | line => line.reverse

/-- The lines from some point on; `line` holds the characters of the current line in reverse. -/
def linesFrom (line : List Char) : List Char → List (List Char)
  | [] => if line.isEmpty then [] else [line.reverse]
  | '\n' :: rest => finishLine line :: linesFrom [] rest
  | c :: rest => linesFrom (c :: line) rest

/-- The lines of a text. -/
def lines (text : String) : List (List Char) :=
  linesFrom [] text.toList

/-- The line with the given number, counted from one. -/
def line? (text : String) : Nat → Option String
  | 0 => none
  | n + 1 => (lines text)[n]?.map String.ofList

/-- A text occurs in another. -/
def occurs (needle : List Char) : List Char → Bool
  | [] => needle.isEmpty
  | c :: rest => needle.isPrefixOf (c :: rest) || occurs needle rest

end HintCheck.Text
