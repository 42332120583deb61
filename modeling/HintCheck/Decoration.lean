import HintCheck.Callable.Run
import HintCheck.Check.Build
import HintCheck.Hint.Cache

/-!
Decoration puts a wrapper around a function. All hints of its signature are turned into checks
first, and a single hint that cannot be checked leaves the function as it was. A function that needs
no check, or opts out, is left alone too.
-/
namespace HintCheck

/-- What happens while a function is decorated. -/
inductive Event where
  /-- A hint has another canonical form. -/
  | reduced (hint result : String)
  | classified (hint : String) (sign : Sign)
  /-- A check was built for a parameter or for the return. -/
  | built (site check : String)
  | wrapped (function : String) (file : Filename)
deriving DecidableEq, Repr

/-- Why a function cannot be decorated. -/
inductive DecorationError where
  | hint (function : String) (site : Site) (e : HintError)
  | listing (e : ListingError)
deriving DecidableEq, Repr

/-- A site of a signature in the words of a decoration error. -/
def Site.quotedText : Site → String
  | parameter name => "parameter \"" ++ name ++ "\""
  | result => "return"
  | value => "value"

def DecorationError.message : DecorationError → String
  | hint function site e =>
    "Function " ++ function ++ "() " ++ site.quotedText ++ " type hint invalid: " ++ e.message
  | listing e => e.message

/-- What decoration works on: classifications that are kept, the next free label, the scope of the
wrapper, and the events so far. -/
structure Workshop where
  cache : Cache
  nextLabel : Nat
  scope : Scope
  events : List Event

abbrev Decorating := ExceptT DecorationError (StateM Workshop)

/-- The fixed surroundings of decoration. -/
structure Decorator where
  around : Surroundings
  substitutes : Substitutes
  conf : Config

namespace Decorator

def builder (dec : Decorator) : Builder :=
  ⟨dec.around.catalog, dec.substitutes, dec.conf⟩

def log (e : Event) : ExceptT HintError (StateM Workshop) Unit :=
  modify fun s => { s with events := s.events ++ [e] }

/-- Classifies a hint with the help of what is kept. -/
def classify (dec : Decorator) (ctx : Context) (h : Hint) :
    ExceptT HintError (StateM Workshop) Classified := do
  let s ← get
  match s.cache.classify dec.around.catalog dec.substitutes s.nextLabel ctx h with
  | .error e => throw e
  | .ok (c, cache) =>
    set { s with cache, nextLabel := s.nextLabel + 1 }
    return c

/-- Builds a check in the scope of the wrapper. -/
def build (dec : Decorator) (ctx : Context) (pith : String) (c : Classified) :
    ExceptT HintError (StateM Workshop) Check := do
  let s ← get
  let (outcome, scope) := (dec.builder.build ctx pith c).run.run s.scope
  set { s with scope }
  match outcome with
  | .ok check => return check
  | .error e => throw e

/-- The check of one hint of a signature, unless it accepts every value. -/
def checkOf (dec : Decorator) (ctx : Context) (pith : String) (h : Hint) :
    ExceptT HintError (StateM Workshop) (Option Check) := do
  let cat := dec.around.catalog
  let c ← dec.classify ctx h
  let shown := h.text cat
  let canonical := c.hint.text cat
  if shown ≠ canonical then log (.reduced shown canonical)
  log (.classified canonical c.sign)
  if c.isIgnorable then return none
  let check ← dec.build ctx pith c
  if check.isPass then return none
  log (.built (if pith == resultName then "return" else pith) (check.text cat))
  return some check

/-- Says in which function and where a hint is wrong. -/
def atSite {α : Type} (d : Declaration) (site : Site) (x : ExceptT HintError (StateM Workshop) α) :
    Decorating α :=
  ExceptT.mk do
    match ← x.run with
    | .ok a => return .ok a
    | .error e => return .error (.hint d.qualname site e)

/-- The checks of the annotated parameters, from the parameter at `index` on. -/
def paramChecks (dec : Decorator) (ctx : Context) (d : Declaration) (index : Nat) :
    List Parameter → Decorating (List ParamCheck)
  | [] => pure []
  | p :: rest => do
    let check ← match p.hint with
      | none => pure none
      | some h =>
        atSite d (.parameter p.name) (dec.checkOf (ctx.placedAt (.param p.kind)) p.name h)
    let checks ← paramChecks dec ctx d (index + 1) rest
    return match check with
      | some check => ⟨index, p.name, check⟩ :: checks
      | none => checks

/-- The check of the result. -/
def resultCheck (dec : Decorator) (ctx : Context) (d : Declaration) : Decorating (Option Check) :=
  match d.returns with
  | none => pure none
  | some h => atSite d .result (dec.checkOf (ctx.placedAt .result) resultName h)

/-- The function is never checked, because it says so, its module does or the class around it. -/
def isExempt (dec : Decorator) (owner : Option ClassId) (d : Declaration) : Bool :=
  (owner.any fun c => (dec.around.catalog.get c).flags.noTypeCheck) || d.unchecked ||
    (dec.around.namespaces.import? d.module).any Module.noTypeCheck

/-- The scope that the hints of a function are read in. -/
def contextOf (dec : Decorator) (owner : Option ClassId) (d : Declaration) : Context :=
  let ctx := { (Context.bare dec.conf).inModule d.module with locals := d.locals }
  match owner with
  | some c => ctx.inClass c
  | none => ctx

/-- Puts the checks around a function. -/
def wrap (dec : Decorator) (d : Declaration) (params : List ParamCheck) (result : Option Check) :
    Decorating Wrapper := do
  let s ← get
  match d.wrap dec.around.catalog s.nextLabel params result s.scope dec.conf with
  | .error e => throw (.listing e)
  | .ok w =>
    set { s with
      nextLabel := s.nextLabel + 1
      events := s.events ++ [Event.wrapped d.qualname d.filename] }
    return w

/-- Decorates a function, perhaps one that is declared in a class. A callable that has a wrapper is
returned as it is. -/
def decorate (dec : Decorator) (owner : Option ClassId) : Callable → Decorating Callable
  | .checked d body w => pure (.checked d body w)
  | .plain d body => do
    if dec.conf.thoroughness == .off || dec.isExempt owner d then return .plain d body
    let ctx := dec.contextOf owner d
    let params ← dec.paramChecks ctx d 0 d.signature.params
    let result ← dec.resultCheck ctx d
    if params.isEmpty && result.isNone then return .plain d body
    let w ← dec.wrap d params result
    return .checked d body w

end Decorator
end HintCheck
