import HintCheck.Value.Text

/-!
How hints and validators are written.
-/
namespace HintCheck

/-- How a condition is written. -/
def Rule.text (cat : Catalog) : Rule → String
  | test shown _ => "Is[" ++ shown ++ "]"
  | attr name rule => "IsAttr['" ++ name ++ "', " ++ rule.text cat ++ "]"
  | equal v => "IsEqual[" ++ v.text cat ++ "]"
  | instanceOf classes =>
    "IsInstance[" ++ ", ".intercalate (classes.map fun c => (cat.get c).text) ++ "]"
  | subclassOf classes =>
    "IsSubclass[" ++ ", ".intercalate (classes.map fun c => (cat.get c).text) ++ "]"
  | both a b => "(" ++ a.text cat ++ " & " ++ b.text cat ++ ")"
  | either a b => "(" ++ a.text cat ++ " | " ++ b.text cat ++ ")"
  | negation a => "~" ++ a.text cat

def Validator.text (cat : Catalog) (v : Validator) : String :=
  v.rule.text cat

def Subscriptable.text (cat : Catalog) : Subscriptable → String
  | form f => f.text
  | cls c => (cat.get c).text

/-- The mark in front of a type variable. -/
def Variance.mark : Variance → String
  | invariant => "~"
  | covariant => "+"
  | contravariant => "-"

namespace Hint

mutual

/-- How a hint is written. -/
def text (cat : Catalog) : Hint → String
  | cls c => if c = Builtin.noneType then "None" else (cat.get c).text
  | form f => f.text
  | none _ => "None"
  | quoted _ name => Quoted.ofString name
  | subscription _ origin args =>
    match texts cat args with
    | [] => origin.text cat ++ "[()]"
    | all => origin.text cat ++ "[" ++ ", ".intercalate all ++ "]"
  | union _ members => " | ".intercalate (texts cat members)
  | typeVar _ name variance _ _ => variance.mark ++ name
  | paramSpec _ name => "~" ++ name
  | typeVarTuple _ name => name
  | forwardRef _ name (some module) => "ForwardRef('" ++ name ++ "', module='" ++ module ++ "')"
  | forwardRef _ name Option.none => "ForwardRef('" ++ name ++ "')"
  | newType _ name module _ => module ++ "." ++ name
  | value _ .ellipsis => "..."
  | value _ v => v.text cat
  | validator _ v => v.text cat
  | params _ hints => "[" ++ ", ".intercalate (texts cat hints) ++ "]"
  | extension _ shown => shown
termination_by structural h => h

def texts (cat : Catalog) : List Hint → List String
  | [] => []
  | h :: rest => text cat h :: texts cat rest
termination_by structural hs => hs

end

end Hint
end HintCheck
