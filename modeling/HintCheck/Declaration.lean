import HintCheck.Signature.Binding

/-!
Functions as they are declared: everything but what they do.
-/
namespace HintCheck

/-- The declaration of a function. -/
structure Declaration where
  /-- Tells the function from any other. -/
  label : Nat
  name : String
  qualname : String
  module : String
  signature : Signature
  returns : Option Hint
  /-- The function is never checked. -/
  unchecked : Bool
  /-- The local scope that it is declared in. -/
  locals : Option Nat

namespace Declaration

/-- The function as it is shown. -/
def text (d : Declaration) : String :=
  "<function " ++ d.qualname ++ "(" ++ d.signature.text ++ ")>"

end Declaration
end HintCheck
