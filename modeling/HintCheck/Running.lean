import HintCheck.Hint.Error
import HintCheck.Keystream
import HintCheck.Violation
import HintCheck.Wrapper

/-!
A call in progress: the errors that end it, the state that it changes, and the parts of a call that
do not depend on what the function does. The arguments are bound first; checks then ask for values,
random numbers and the classes that references stand for.
-/
namespace HintCheck

/-- Why a call has no result. -/
inductive CallError where
  | bind (function : String) (e : BindError)
  | violation (v : Violation)
  | reference (e : ReferenceError)
  | hint (e : HintError)
  /-- The body of a function raised it. -/
  | raised (kind text : String)
deriving DecidableEq, Repr

def CallError.message : CallError → String
  | bind function e => e.message function
  | violation v => v.message
  | reference e => e.message
  | hint e => e.message
  | raised kind text => kind ++ ": " ++ text

/-- What calls change: the position in the random numbers, and how far the references of wrappers
have been resolved. -/
structure CallState where
  keystream : Keystream
  resolutions : List ((Nat × ScopeKey) × Resolution)

namespace CallState

/-- The state of a reference that `owner` has bound under a name. -/
def resolution (s : CallState) (owner : Nat) (key : ScopeKey) : Resolution :=
  (s.resolutions.lookup (owner, key)).getD .unresolved

def setResolution (s : CallState) (owner : Nat) (key : ScopeKey) (r : Resolution) : CallState :=
  { s with
    resolutions := ((owner, key), r) :: s.resolutions.filter fun e => e.1 != (owner, key) }

end CallState

/-- Evaluating a check; references that were resolved stay resolved after an error too. -/
abbrev Checking := ExceptT ReferenceError (StateM CallState)

/-- A call in progress. -/
abbrev Running := ExceptT CallError (StateM CallState)

namespace Running

/-- Uses a reference of `owner`. -/
def resolve (around : Surroundings) (owner : Nat) (ref : ReferenceOperand) :
    Checking (Option ClassId) := do
  let s ← get
  let (outcome, after) := (s.resolution owner ref.key).use around ref.reference
  set (s.setResolution owner ref.key after)
  match outcome with
  | .ok c => return c
  | .error e => throw e

/-- What the checks of `owner` ask for. -/
def oracle (around : Surroundings) (owner : Nat) (random : UInt32) : Oracle Checking :=
  ⟨around.catalog, random, resolve around owner⟩

/-- A check within a call. -/
def ofChecking {α : Type} (x : Checking α) : Running α :=
  ExceptT.mk do
    match ← x.run with
    | .ok a => return .ok a
    | .error e => return .error (.reference e)

/-- Draws a random number. -/
def draw : Running UInt32 :=
  modifyGet fun s =>
    let (x, keystream) := s.keystream.draw
    (x, { s with keystream })

/-- Checks a value; the violation is the error. -/
def demand (o : Oracle Checking) (conf : Config) (function : String) (site : Site) (c : Check)
    (v : Value) : Running Unit := do
  unless ← ofChecking (c.accepts o v) do
    throw (.violation (← ofChecking (c.violation o conf function site v)))

/-- Checks the parameters that were passed, in order. -/
def demandParams (o : Oracle Checking) (w : Wrapper) (function : String) (bound : List Bound) :
    List ParamCheck → Running Unit
  | [] => pure ()
  | p :: rest => do
    match bound[p.index]? with
    | some b => if b.passed then demand o w.conf function (.parameter p.name) p.check b.value
    | none => pure ()
    demandParams o w function bound rest

/-- Binds the arguments of a call. -/
def bind (d : Declaration) (call : Call) : Running (List Bound) :=
  match d.signature.bind call with
  | .ok bound => pure bound
  | .error e => throw (.bind d.qualname e)

end Running

end HintCheck
