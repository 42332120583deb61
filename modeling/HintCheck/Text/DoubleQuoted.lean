import HintCheck.Text.Hidden

/-!
Texts between double quotes. The quote, the backslash and the commonest controls are escaped by a
backslash and one character, and any other character that does not show by itself is written as its
code point in hexadecimal digits between braces.
-/
namespace HintCheck.DoubleQuoted

/-- A character by its code point. -/
def codePoint (c : Char) : String :=
  "\\u\x7b" ++ String.ofList (Nat.toDigits 16 c.toNat) ++ "\x7d"

/-- What one character of a text becomes. -/
def escape (c : Char) : String :=
  if c == '"' then "\\\""
  else if c == '\\' then "\\\\"
  else if c == '\n' then "\\n"
  else if c == '\r' then "\\r"
  else if c == '\t' then "\\t"
  else if c.toNat == 0 then "\\0"
  else if Hidden.isHidden c then codePoint c
  else c.toString

/-- A text between double quotes. -/
def ofString (text : String) : String :=
  "\"" ++ String.join (text.toList.map escape) ++ "\""

end HintCheck.DoubleQuoted
