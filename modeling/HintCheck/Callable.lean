import HintCheck.Running

/-!
Callables: functions with their bodies, plain or with a wrapper around them. A body may call another
callable, which was there before it.
-/
namespace HintCheck

mutual

/-- What a function does. -/
inductive Body where
  /-- Any function of the bound arguments, in the surroundings of the call. -/
  | computes (f : Surroundings → List Bound → Running Value)
  /-- Calls another callable with all values as positional arguments. -/
  | delegate (callee : Callable)

/-- A function that can be called. -/
inductive Callable where
  | plain (d : Declaration) (body : Body)
  /-- Checks around a function. -/
  | checked (d : Declaration) (body : Body) (w : Wrapper)

end

namespace Body

def constant (v : Value) : Body :=
  computes fun _ _ => pure v

/-- The value of a parameter, or `None` if there is no such parameter. -/
def argument (name : String) : Body :=
  computes fun _ bound => pure ((Bound.get? bound name).getD .none)

/-- The text of the value of a parameter; empty if there is no such parameter. -/
def textOf (name : String) : Body :=
  computes fun around bound =>
    pure (.str (((Bound.get? bound name).map (Value.text around.catalog)).getD ""))

def raises (kind message : String) : Body :=
  computes fun _ _ => throw (.raised kind message)

/-- For each parameter its name, its value and whether it was passed. -/
def arguments : Body :=
  computes fun _ bound =>
    pure (.list (bound.map fun b => .tuple [.str b.name, b.value, .bool b.passed]))

end Body

namespace Callable

/-- The declaration of the function, without its wrapper. -/
def declaration : Callable → Declaration
  | plain d _ | checked d _ _ => d

def wrapper? : Callable → Option Wrapper
  | plain _ _ => none
  | checked _ _ w => some w

/-- Tells a callable from any other. -/
def label : Callable → Nat
  | plain d _ => d.label
  | checked _ _ w => w.label

/-- Whether two callables are one object. -/
def isSame (a b : Callable) : Bool :=
  a.label == b.label

/-- The callable as a value. -/
def reference (c : Callable) : FunctionRef :=
  ⟨c.label, c.declaration.qualname⟩

/-- The callable as it is shown. -/
def text : Callable → String
  | plain d _ => d.text
  | checked d _ _ => "<checked " ++ d.text ++ ">"

end Callable
end HintCheck
