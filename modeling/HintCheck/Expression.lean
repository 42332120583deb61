/-!
Boolean expressions as they are written in the listing of a wrapper. Operators join their operands
in order and stop as soon as the outcome is known. A value that is tested more than once is assigned
to a variable where it is first read.
-/
namespace HintCheck

/-- The variable that holds the random number of a call. -/
def randomName : String := "__hg_random"

/-- Where the value of a new variable comes from: a part of the value of another variable. -/
inductive Source where
  /-- The item at the position that the random number selects. -/
  | sampled (whole : String)
  /-- The first item, or the first key. -/
  | first (whole : String)
  | firstValue (whole : String)
  /-- What a mapping holds under the key in another variable. -/
  | under (whole key : String)
  | position (whole : String) (index : Nat)
  | attr (whole name : String)
deriving DecidableEq, Repr

def Source.text : Source → String
  | sampled p => p ++ "[" ++ randomName ++ " % len(" ++ p ++ ")]"
  | first p => "next(iter(" ++ p ++ "))"
  | firstValue p => "next(iter(" ++ p ++ ".values()))"
  | under p key => p ++ "[" ++ key ++ "]"
  | position p index => p ++ "[" ++ toString index ++ "]"
  | attr p name => "getattr(" ++ p ++ ", '" ++ name ++ "')"

/-- A value that is read: from a variable, or from a source and kept in a variable. -/
inductive Operand where
  | read (name : String)
  | assign (name : String) (source : Source)
deriving DecidableEq, Repr

def Operand.text : Operand → String
  | read name => name
  | assign name source => "(" ++ name ++ " := " ++ source.text ++ ")"

/-- What a loop runs over, and the variables that it sets. -/
inductive Range where
  | items (item whole : String)
  | values (value whole : String)
  | pairs (key value whole : String)
deriving DecidableEq, Repr

def Range.text : Range → String
  | items item p => item ++ " in " ++ p
  | values value p => value ++ " in " ++ p ++ ".values()"
  | pairs key value p => key ++ ", " ++ value ++ " in " ++ p ++ ".items()"

/-- A Boolean expression. -/
inductive Expression where
  | const (b : Bool)
  | isInstance (x : Operand) (classes : List String)
  | isSubclass (x : Operand) (classes : List String)
  | referenceInstance (key : String) (x : Operand)
  | referenceSubclass (key : String) (x : Operand)
  | validated (key : String) (x : Operand)
  /-- The value is the object that the text denotes. -/
  | isObject (x : Operand) (shown : String)
  | equals (x : Operand) (shown : String)
  | hasKey (key : String) (x : Operand)
  | hasAttr (x : Operand) (name : String)
  | hasLength (x : Operand) (len : Nat)
  /-- The value is not empty. -/
  | truth (x : Operand)
  | negation (e : Expression)
  | conjunction (es : List Expression)
  | disjunction (es : List Expression)
  /-- The expression holds for all that a loop runs over. -/
  | every (e : Expression) (range : Range)

namespace Expression

/-- The conjunction of some expressions; one alone stands for itself. -/
def allOf : List Expression → Expression
  | [] => const true
  | [e] => e
  | es => conjunction es

/-- The disjunction of some expressions; one alone stands for itself. -/
def anyOf : List Expression → Expression
  | [] => const false
  | [e] => e
  | es => disjunction es

/-- Classes as the second operand of a test. -/
def classesText : List String → String
  | [name] => name
  | names => "(" ++ ", ".intercalate names ++ ")"

mutual

/-- An expression as it is written. -/
def text : Expression → String
  | const true => "True"
  | const false => "False"
  | isInstance x classes => "isinstance(" ++ x.text ++ ", " ++ classesText classes ++ ")"
  | isSubclass x classes => "issubclass(" ++ x.text ++ ", " ++ classesText classes ++ ")"
  | referenceInstance key x => key ++ ".is_instance(" ++ x.text ++ ")"
  | referenceSubclass key x => key ++ ".is_subclass(" ++ x.text ++ ")"
  | validated key x => key ++ "(" ++ x.text ++ ")"
  | isObject x shown => x.text ++ " is " ++ shown
  | equals x shown => x.text ++ " == " ++ shown
  | hasKey key x => "'" ++ key ++ "' in " ++ x.text
  | hasAttr x name => "hasattr(" ++ x.text ++ ", '" ++ name ++ "')"
  | hasLength x len => "len(" ++ x.text ++ ") == " ++ toString len
  | truth x => x.text
  | negation e => "not " ++ text e
  | conjunction es => "(" ++ " and ".intercalate (texts es) ++ ")"
  | disjunction es => "(" ++ " or ".intercalate (texts es) ++ ")"
  | every e range => "all(" ++ text e ++ " for " ++ range.text ++ ")"
termination_by structural e => e

def texts : List Expression → List String
  | [] => []
  | e :: rest => text e :: texts rest
termination_by structural es => es

end

end Expression
end HintCheck
