/-!
Quoted literals. A text is written between single quotes, or between double quotes when it holds a
single quote and no double quote. Inside, the backslash, the line feed, the carriage return, the
tab and the chosen quote are escaped by a backslash, and every other control character is written
as `\x` with two hexadecimal digits. A sequence of bytes is written the same way after the letter
`b`, with every byte outside the printable range as `\x`.
-/
namespace HintCheck.Quoted

def singleQuote : Char := Char.ofNat 0x27

def doubleQuote : Char := Char.ofNat 0x22

def backslash : Char := Char.ofNat 0x5c

/-- The control characters: the C0 range, the delete character and the C1 range. -/
def isControl (c : Char) : Bool :=
  c.toNat < 0x20 || (0x7f ≤ c.toNat && c.toNat ≤ 0x9f)

/-- The two lower-case hexadecimal digits of a number below 256. -/
def hexPair (n : Nat) : List Char :=
  [Nat.digitChar (n / 16), Nat.digitChar (n % 16)]

/-- The quote to write a text in. -/
def quoteFor (cs : List Char) : Char :=
  if cs.contains singleQuote && !cs.contains doubleQuote then doubleQuote else singleQuote

/-- What one character of a text becomes inside the given quote. -/
def escape (quote c : Char) : List Char :=
  if c = backslash then [backslash, backslash]
  else if c = '\n' then [backslash, 'n']
  else if c = '\r' then [backslash, 'r']
  else if c = '\t' then [backslash, 't']
  else if c = quote then [backslash, c]
  else if isControl c then backslash :: 'x' :: hexPair c.toNat
  else [c]

/-- A text between its quotes. -/
def encode (cs : List Char) : List Char :=
  quoteFor cs :: (cs.flatMap (escape (quoteFor cs)) ++ [quoteFor cs])

/-- The literal of a text. -/
def ofString (s : String) : String :=
  String.ofList (encode s.toList)

/-- What one byte becomes inside the given quote. -/
def escapeByte (quote : Char) (b : UInt8) : List Char :=
  let c := Char.ofNat b.toNat
  if c = backslash then [backslash, backslash]
  else if c = '\t' then [backslash, 't']
  else if c = '\n' then [backslash, 'n']
  else if c = '\r' then [backslash, 'r']
  else if c = quote then [backslash, c]
  else if 0x20 ≤ b.toNat && b.toNat ≤ 0x7e then [c]
  else backslash :: 'x' :: hexPair b.toNat

/-- A sequence of bytes after the letter `b`, between its quotes. -/
def encodeBytes (bs : List UInt8) : List Char :=
  let quote := quoteFor (bs.map fun b => Char.ofNat b.toNat)
  'b' :: quote :: (bs.flatMap (escapeByte quote) ++ [quote])

/-- The literal of a sequence of bytes. -/
def ofBytes (bs : List UInt8) : String :=
  String.ofList (encodeBytes bs)

end HintCheck.Quoted
