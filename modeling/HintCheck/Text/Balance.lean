import HintCheck.Text.Lines
import HintCheck.Text.Quoted

/-!
Brackets in a listing have to nest. Brackets inside quotes do not count; a quote may stay open from
one line to the next, and inside it a backslash takes the next character of its line with it.
-/
namespace HintCheck.Text

/-- How brackets fail to nest. -/
inductive Imbalance where
  /-- A closing bracket does not close the last one opened. -/
  | unmatched (bracket : Char) (line : Nat)
  | neverClosed (bracket : Char)
deriving DecidableEq, Repr

def Imbalance.message : Imbalance → String
  | unmatched bracket line => "unmatched '" ++ bracket.toString ++ "' on line " ++ toString line
  | neverClosed bracket => "'" ++ bracket.toString ++ "' was never closed"

/-- The open brackets, the last one first, and the open quote. -/
structure Nesting where
  stack : List Char
  quote : Option Char
deriving DecidableEq, Repr

/-- The bracket that a closing one closes. -/
def opening? : Char → Option Char
  | ')' => some '('
  | ']' => some '['
  | '\x7d' => some '\x7b'
  | _ => none

def isOpening (c : Char) : Bool :=
  c == '(' || c == '[' || c == '\x7b'

/-- Reads a character outside quotes; fails on a closing bracket without its opening one. -/
def readOutside (stack : List Char) (c : Char) : Option Nesting :=
  if c == Quoted.singleQuote || c == Quoted.doubleQuote then some ⟨stack, some c⟩
  else if isOpening c then some ⟨c :: stack, none⟩
  else
    match opening? c with
    | none => some ⟨stack, none⟩
    | some bracket =>
      match stack with
      | top :: rest => if top == bracket then some ⟨rest, none⟩ else none
      | [] => none

/-- Reads the rest of a line; the error is the closing bracket without its opening one. -/
def scan : Nesting → List Char → Except Char Nesting
  | s, [] => .ok s
  | ⟨stack, none⟩, c :: rest =>
    match readOutside stack c with
    | some s => scan s rest
    | none => .error c
  | ⟨stack, some quote⟩, c :: rest =>
    if c == Quoted.backslash then
      match rest with
      | [] => .ok ⟨stack, some quote⟩
      | _ :: rest => scan ⟨stack, some quote⟩ rest
    else if c == quote then scan ⟨stack, none⟩ rest
    else scan ⟨stack, some quote⟩ rest

/-- Reads lines, of which the first has the given number. -/
def scanLines (number : Nat) (s : Nesting) : List (List Char) → Except Imbalance Nesting
  | [] => .ok s
  | line :: rest =>
    match scan s line with
    | .error bracket => .error (.unmatched bracket number)
    | .ok s => scanLines (number + 1) s rest

/-- The first imbalance of a text. -/
def imbalance? (text : String) : Option Imbalance :=
  match scanLines 1 ⟨[], none⟩ (lines text) with
  | .error e => some e
  | .ok s => s.stack.head?.map .neverClosed

end HintCheck.Text
