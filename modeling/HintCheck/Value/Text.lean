import HintCheck.Class.Catalog
import HintCheck.Double.Shortest
import HintCheck.Text.Quoted

/-!
How values are shown. An instance shows its payload, or the name and the value of the enumeration
member that it is, or else only its class: addresses carry no information and are all shown alike.
-/
namespace HintCheck.Value

/-- Texts between brackets, with commas. -/
def bracketed (opening closing : String) (texts : List String) : String :=
  opening ++ ", ".intercalate texts ++ closing

/-- How a complex number is shown: bare when its real part is the positive zero. -/
def complexText (re im : Double) : String :=
  if re.isZero && !re.negative then im.partText ++ "j"
  else
    "(" ++ re.partText ++ (if im.negative then "-" else "+") ++ im.abs.partText ++ "j)"

/-- How a tuple is shown: a comma tells a single item from an expression in brackets. -/
def tupleText : List String → String
  | [one] => "(" ++ one ++ ",)"
  | all => bracketed "(" ")" all

/-- How a set is shown: the braces of an empty one would be those of a dictionary. -/
def setText : List String → String
  | [] => "set()"
  | all => bracketed "\x7b" "\x7d" all

def frozensetText : List String → String
  | [] => "frozenset()"
  | all => bracketed "frozenset(\x7b" "\x7d)" all

/-- How an instance is shown that is no enumeration member. -/
def instanceText (k : Class) : Option String → String
  | some payload => k.qualname ++ "(" ++ payload ++ ")"
  | Option.none => "<" ++ k.module ++ "." ++ k.qualname ++ " object at 0xADDR>"

/-- How an instance of the class is shown, with its attributes `name` and `value` and its
payload. -/
def objectText (k : Class) (name : Option Value) (value payload : Option String) : String :=
  match name, value with
  | some (str name), some value =>
    if k.flags.enumeration then "<" ++ k.qualname ++ "." ++ name ++ ": " ++ value ++ ">"
    else instanceText k payload
  | _, _ => instanceText k payload

mutual

/-- How a value is shown. -/
def text (cat : Catalog) : Value → String
  | ellipsis => "Ellipsis"
  | none => "None"
  | bool true => "True"
  | bool false => "False"
  | int i => toString i
  | float x => x.text
  | complex re im => complexText re im
  | str s => Quoted.ofString s
  | bytes bs => Quoted.ofBytes bs
  | list items => bracketed "[" "]" (texts cat items)
  | tuple items => tupleText (texts cat items)
  | dict pairs => bracketed "\x7b" "\x7d" (pairTexts cat pairs)
  | set items => setText (texts cat items)
  | frozenset items => frozensetText (texts cat items)
  | deque items => bracketed "deque([" "])" (texts cat items)
  | type c => (cat.get c).shown
  | inst _ c attrs payload =>
    objectText (cat.get c) (Entries.get? attrs "name") (attrText cat attrs "value")
      (payloadText cat payload)
  | function f => "<function " ++ f.qualname ++ ">"
  | method name => "<built-in method " ++ name ++ ">"
  | iterator _ => "<iterator object>"
  | module name => "<module '" ++ name ++ "'>"
termination_by structural v => v

def texts (cat : Catalog) : List Value → List String
  | [] => []
  | v :: rest => text cat v :: texts cat rest
termination_by structural vs => vs

def pairTexts (cat : Catalog) : List (Value × Value) → List String
  | [] => []
  | (k, v) :: rest => (text cat k ++ ": " ++ text cat v) :: pairTexts cat rest
termination_by structural pairs => pairs

/-- How the attribute of the given name is shown. -/
def attrText (cat : Catalog) : List (String × Value) → String → Option String
  | [], _ => Option.none
  | (n, v) :: rest, name => if n == name then some (text cat v) else attrText cat rest name
termination_by structural attrs => attrs

def payloadText (cat : Catalog) : Option Value → Option String
  | Option.none => Option.none
  | some v => some (text cat v)
termination_by structural v => v

end

/-- How a value is written out: texts as they are, other values as they are shown. -/
def display (cat : Catalog) : Value → String
  | str s => s
  | v => v.text cat

/-- The name of the class of a value. -/
def typeName (cat : Catalog) (v : Value) : String :=
  (cat.get v.classOf).qualname

end HintCheck.Value
