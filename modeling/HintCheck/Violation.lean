import HintCheck.Check.Blame

/-!
Violations: a value that fails the check of its hint, with the place where it was found and the
innermost failure inside it.
-/
namespace HintCheck

/-- Where a value is checked. -/
inductive Site where
  | parameter (name : String)
  | result
  /-- In a check of its own. -/
  | value
deriving DecidableEq, Repr

namespace Site

def text : Site → String
  | parameter name => "parameter " ++ name
  | result => "return"
  | value => "value"

/-- The name of the checked value in the description of a failure inside it. -/
def root : Site → String
  | parameter name => name
  | result => "return"
  | value => "value"

def param? : Site → Option String
  | parameter name => some name
  | _ => none

end Site

/-- A value that does not satisfy its hint. -/
structure Violation where
  /-- The function that was called; empty for a check of its own. -/
  function : String
  site : Site
  hint : String
  typeName : String
  shown : String
  cause : String
  colored : Bool
deriving DecidableEq, Repr

namespace Violation

/-- A text in bold and in a colour of the terminal. -/
def highlighted (color : String) (text : String) : String :=
  "\x1b[1;" ++ color ++ "m" ++ text ++ "\x1b[0m"

/-- The violation in words; with colours, the hint is green and the value is red. -/
def message (v : Violation) : String :=
  let hint := if v.colored then highlighted "32" v.hint else v.hint
  let value := if v.colored then highlighted "31" v.shown else v.shown
  let subject :=
    match v.site with
    | .value => value
    | .parameter name => "Function " ++ v.function ++ "() parameter " ++ name ++ "=" ++ value
    | .result => "Function " ++ v.function ++ "() return " ++ value
  subject ++ " violates type hint " ++ hint ++ ", as " ++ v.cause ++ "."

end Violation

namespace Check

variable {m : Type → Type} [Monad m] [MonadExcept ReferenceError m]

/-- The failure inside a value that a check rejects. Where none can be named, the value itself is
said not to be an instance of the hint. -/
def failure (o : Oracle m) (c : Check) (v : Value) : m Failure := do
  let found ← tryCatch (diagnose o c v) fun (_ : ReferenceError) => pure none
  return found.getD (.of o.catalog "" v ("not instance of " ++ c.subject.hint))

/-- The violation of a check by a value. -/
def violation (o : Oracle m) (conf : Config) (function : String) (site : Site) (c : Check)
    (v : Value) : m Violation := do
  let failure ← c.failure o v
  return {
    function, site
    hint := c.subject.hint
    typeName := v.typeName o.catalog
    shown := abridged (v.text o.catalog)
    cause := failure.describe site.root
    colored := conf.usesColor }

end Check
end HintCheck
