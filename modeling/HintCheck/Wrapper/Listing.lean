import HintCheck.Check.Expression
import HintCheck.Declaration

/-!
The listing of a wrapper: a function with the signature of the wrapped one that checks its
parameters, calls the wrapped function and checks the result.
-/
namespace HintCheck

/-- The variable that holds the result of the wrapped function. -/
def resultName : String := "__hg_return"

/-- The test of one value in a listing. -/
structure Guard where
  /-- What the violation is called: the parameter, or the return. -/
  site : String
  /-- The variable that holds the value. -/
  pith : String
  /-- The default of the parameter is not tested. -/
  exemptsDefault : Bool
  check : Expression

/-- The two lines of a guard. -/
def Guard.lines (g : Guard) : List String :=
  let exempt :=
    if g.exemptsDefault then g.pith ++ " is not " ++ defaultName g.pith ++ " and " else ""
  ["    if " ++ exempt ++ "not " ++ g.check.text ++ ":",
    "        raise __hg_violation('" ++ g.site ++ "', " ++ g.pith ++ ")"]

/-- What a wrapper does, in order. -/
structure Listing where
  name : String
  signature : Signature
  /-- The wrapper draws a random number. -/
  samples : Bool
  params : List Guard
  result : Option Guard

namespace Listing

/-- The lines of a listing. -/
def lines (l : Listing) : List String :=
  ["def " ++ l.name ++ "(" ++ l.signature.text ++ "):"] ++
  (if l.samples then ["    " ++ randomName ++ " = __hg_getrandbits(32)"] else []) ++
  l.params.flatMap Guard.lines ++
  ["    " ++ resultName ++ " = __hg_func(" ++ l.signature.argumentsText ++ ")"] ++
  (l.result.map Guard.lines).getD [] ++
  ["    return " ++ resultName]

/-- The listing as a text; each line ends with a newline. -/
def text (l : Listing) : String :=
  String.join (l.lines.map fun line => line ++ "\n")

end Listing
end HintCheck
