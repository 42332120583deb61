import HintCheck.Value

/-!
Validators: conditions on a value beyond its type. A validator carries a label, so that two uses
of one validator object can be told from two validators that say the same.
-/
namespace HintCheck

/-- A condition on a value. -/
inductive Rule where
  /-- A predicate, shown by the given text. -/
  | test (shown : String) (holds : Value → Bool)
  /-- The attribute exists and satisfies a condition. -/
  | attr (name : String) (rule : Rule)
  /-- The value equals a given one. -/
  | equal (v : Value)
  /-- The value is an instance of one of the classes. -/
  | instanceOf (classes : List ClassId)
  /-- The value is a class below one of the classes. -/
  | subclassOf (classes : List ClassId)
  | both (a b : Rule)
  | either (a b : Rule)
  | negation (a : Rule)

/-- A validator object. -/
structure Validator where
  label : Nat
  rule : Rule

end HintCheck
