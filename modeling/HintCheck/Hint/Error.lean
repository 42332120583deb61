/-!
Why a hint has no check.
-/
namespace HintCheck

/-- A hint that cannot be checked; each case shows the hint. -/
inductive HintError where
  /-- The object is no hint at all. -/
  | notAHint (shown : String)
  /-- There is no check for the hint. -/
  | unsupported (shown : String)
  /-- The hint breaks a rule of its own kind. -/
  | malformed (shown reason : String)
  /-- The hint was replaced again and again, more often than the limit allows. -/
  | recursion (shown : String) (limit : Nat)
  /-- Hints are nested deeper than the limit allows. -/
  | nesting (shown : String) (limit : Nat)
  /-- Replacing the hint never ends: it comes back inside what replaces it. -/
  | endless (shown : String)
deriving DecidableEq, Repr

def HintError.message : HintError → String
  | notAHint shown => shown ++ " not a type hint"
  | unsupported shown => "type hint " ++ shown ++ " currently unsupported"
  | malformed shown reason => "type hint " ++ shown ++ " malformed: " ++ reason
  | recursion shown limit =>
    "type hint " ++ shown ++ " substitution exceeds maximum depth " ++ toString limit
  | nesting shown limit =>
    "type hint " ++ shown ++ " nesting exceeds maximum depth " ++ toString limit
  | endless shown => "type hint " ++ shown ++ " substitution does not end"

end HintCheck
