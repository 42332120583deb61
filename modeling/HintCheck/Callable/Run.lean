import HintCheck.Callable

/-!
Calling functions. The arguments are bound first. A wrapper then draws a random number if its checks
need one, checks the parameters that were passed, runs the function on the same arguments and checks
the result.
-/
namespace HintCheck

mutual

/-- Runs the body of a function on bound arguments. -/
def Body.run (around : Surroundings) : Body → List Bound → Running Value
  | .computes f, bound => f around bound
  | .delegate callee, bound => callee.call around ⟨bound.map Bound.value, []⟩
termination_by structural body => body

/-- Calls a function. -/
def Callable.call (around : Surroundings) : Callable → Call → Running Value
  | .plain d body, call => do
    let bound ← Running.bind d call
    body.run around bound
  | .checked d body w, call => do
    let bound ← Running.bind d call
    let random ← if w.samples then Running.draw else pure 0
    let o := Running.oracle around w.label random
    Running.demandParams o w d.qualname bound w.params
    let v ← body.run around bound
    match w.result with
    | some c => Running.demand o w.conf d.qualname .result c v
    | none => pure ()
    return v
termination_by structural callable => callable

end

end HintCheck
